import Mathlib.Tactic.Common
import Mathlib.Data.Fin.VecNotation
import Mathlib.Algebra.Group.Nat.Basic

/-! Constants, the 12-state LZMA symbol-kind machine and the command-line policy
flags of lzip.h, with the diagnostic texts the index and the decoder print. -/
namespace Lzip

def minDictionaryBits : Nat := 12
def maxDictionaryBits : Nat := 29
def minDictionarySize : Nat := 1 <<< 12
def maxDictionarySize : Nat := 1 <<< 29
def minMemberSize : Nat := 36
def startDisModel : Nat := 4
def endDisModel : Nat := 14
def disAlignBits : Nat := 4
def minMatchLen : Nat := 2
def maxMatchLen : Nat := 273
def minMatchLenLimit : Nat := 5

@[simp] theorem minDictionarySize_eq : minDictionarySize = 4096 := rfl
@[simp] theorem maxDictionarySize_eq : maxDictionarySize = 536870912 := rfl
@[simp] theorem minMemberSize_eq : minMemberSize = 36 := rfl

def isvalidDs (dictionary_size : Nat) : Bool :=
  minDictionarySize ≤ dictionary_size && dictionary_size ≤ maxDictionarySize

/-- `while( value > 0 ) { value >>= 1; ++bits; }`, run for at most the 32 bits of an
`unsigned`. -/
def realBitsLoop : Nat → Nat → Nat
  | 0, _ => 0
  | n+1, value => if value > 0 then realBitsLoop n (value >>> 1) + 1 else 0

def realBits (value : Nat) : Nat := realBitsLoop 32 value

/-- The LZMA state: which kinds of symbols were decoded last. -/
structure State where
  st : Fin 12
deriving DecidableEq, Repr

namespace State

def init : State := ⟨0⟩

def setChar (s : State) : State :=
  ⟨![0, 0, 0, 0, 1, 2, 3, 4, 5, 6, 4, 5] s.st⟩

/-- `is_char_set_char` updates the state and reports whether the literal is plain. -/
def isCharSetChar (s : State) : Bool × State := (s.setChar.st.val < 4, s.setChar)

def setMatch (s : State) : State := ⟨if s.st.val < 7 then 7 else 10⟩
def setRep (s : State) : State := ⟨if s.st.val < 7 then 8 else 11⟩
def setShortRep (s : State) : State := ⟨if s.st.val < 7 then 9 else 11⟩

end State

structure ClOptions where
  ignoreEmpty : Bool := true
  ignoreMarking : Bool := true
  ignoreTrailing : Bool := true
  looseTrailing : Bool := false
deriving DecidableEq, Repr

def badMagicMsg : String := "Bad magic number (file not in lzip format)."
def badDictMsg : String := "Invalid dictionary size in member header."
def corruptMmMsg : String := "Corrupt header in multimember file."
def trailingMsg : String := "Trailing data not allowed."
def emptyMsg : String := "Empty member not allowed."
def markingMsg : String := "Marking data not allowed."

def badVersion (version : Nat) : String :=
  "Version " ++ toString version ++ " member format not supported."

end Lzip
