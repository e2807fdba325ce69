import Lzip.Header
import Lzip.Trailer

/-! The state of `Lzip_index` (lzip_index.h, lzip_index.cc): a seekable input file, the
`Block` and `Member` records, and the error setters and header check the constructor and
`skip_trailing_data` share. -/
namespace Lzip

/-- A seekable input: its length, as `lseek( infd, 0, SEEK_END )` returns it, and its bytes
(bytes at and past `size` are never read). The length is a `Nat`; `off_t` bounds it by
`2 ^ 63 - 1`, which the results that need the bound take as a hypothesis. -/
structure InFile where
  size : Nat
  byte : Nat → UInt8

namespace InFile

def ofList (l : List UInt8) : InFile := ⟨l.length, fun i => l.getD i 0⟩

/-- What `seek_read( fd, buf, size, pos )` returns: `readblock` stops at end of file. -/
def readCount (f : InFile) (size pos : Nat) : Nat := min size (f.size - pos)

/-- The 6 bytes at `pos`, as `read_header` fills `header.data`. -/
def header (f : InFile) (pos : Nat) : LzipHeader := ⟨fun k => f.byte (pos + k)⟩

/-- The 20 bytes at `pos`, as a trailer read fills `trailer.data`. -/
def trailer (f : InFile) (pos : Nat) : LzipTrailer := ⟨fun k => f.byte (pos + k)⟩

end InFile

def int64Max : Int := 2 ^ 63 - 1

/-- The conversion of an `unsigned long long` to `long long` (two's complement). -/
def toInt64 (x : Nat) : Int := if x < 2 ^ 63 then x else (x : Int) - 2 ^ 64

theorem toInt64_of_lt {x : Nat} (h : x < 2 ^ 63) : toInt64 x = x := if_pos h

structure Block where
  pos : Int
  size : Int
deriving DecidableEq, Repr

def Block.end (b : Block) : Int := b.pos + b.size

structure Member where
  dblock : Block
  mblock : Block
  dictionary_size : Nat
deriving DecidableEq, Repr

/-- `Member( dpos, dsize, mpos, msize, dict_size )`, converting each unsigned argument. -/
def Member.mk' (dpos dsize mpos msize dict_size : Nat) : Member :=
  ⟨⟨toInt64 dpos, toInt64 dsize⟩, ⟨toInt64 mpos, toInt64 msize⟩, dict_size⟩

structure LzipIndex where
  member_vector : List Member
  error : String
  insize : Nat
  retval : Nat
  dictionary_size : Nat

namespace LzipIndex

def members (idx : LzipIndex) : Nat := idx.member_vector.length

/-- `set_errno_error`: the `strerror( errno )` suffix is not modelled. -/
def setErrnoError (idx : LzipIndex) (msg : String) : LzipIndex :=
  { idx with error := msg, retval := 1 }

def setNumError (idx : LzipIndex) (msg : String) (num : Nat) : LzipIndex :=
  { idx with error := msg ++ toString num, retval := 2 }

def setError (idx : LzipIndex) (msg : String) : LzipIndex :=
  { idx with error := msg, retval := 2 }

/-- `check_header`: the first failed test sets its message. -/
def checkHeader (idx : LzipIndex) (header : LzipHeader) : Bool × LzipIndex :=
  if !header.checkMagic then (false, idx.setError badMagicMsg)
  else if !header.checkVersion then (false, idx.setError (badVersion header.version))
  else if !isvalidDs header.dictionarySize then (false, idx.setError badDictMsg)
  else (true, idx)

/-- `if( dictionary_size_ < dictionary_size ) dictionary_size_ = dictionary_size;` then
`member_vector.push_back( Member( 0, data_size, pos, member_size, dictionary_size ) )`. -/
def pushMember (idx : LzipIndex) (data_size pos member_size dictionary_size : Nat) : LzipIndex :=
  { idx with
    dictionary_size := max idx.dictionary_size dictionary_size
    member_vector := idx.member_vector ++ [Member.mk' 0 data_size pos member_size dictionary_size] }

@[simp] theorem setError_retval (idx : LzipIndex) (msg : String) :
    (idx.setError msg).retval = 2 := rfl
@[simp] theorem setError_member_vector (idx : LzipIndex) (msg : String) :
    (idx.setError msg).member_vector = idx.member_vector := rfl
@[simp] theorem setNumError_retval (idx : LzipIndex) (msg : String) (n : Nat) :
    (idx.setNumError msg n).retval = 2 := rfl
@[simp] theorem setNumError_member_vector (idx : LzipIndex) (msg : String) (n : Nat) :
    (idx.setNumError msg n).member_vector = idx.member_vector := rfl
@[simp] theorem setErrnoError_retval (idx : LzipIndex) (msg : String) :
    (idx.setErrnoError msg).retval = 1 := rfl
@[simp] theorem setErrnoError_member_vector (idx : LzipIndex) (msg : String) :
    (idx.setErrnoError msg).member_vector = idx.member_vector := rfl
@[simp] theorem pushMember_retval (idx : LzipIndex) (a b c d : Nat) :
    (idx.pushMember a b c d).retval = idx.retval := rfl
@[simp] theorem pushMember_member_vector (idx : LzipIndex) (a b c d : Nat) :
    (idx.pushMember a b c d).member_vector =
      idx.member_vector ++ [Member.mk' 0 a b c d] := rfl

@[simp] theorem pushMember_dictionary_size (idx : LzipIndex) (a b c d : Nat) :
    (idx.pushMember a b c d).dictionary_size = max idx.dictionary_size d := rfl

@[simp] theorem checkHeader_member_vector (idx : LzipIndex) (h : LzipHeader) :
    (idx.checkHeader h).2.member_vector = idx.member_vector := by
  unfold checkHeader; split_ifs <;> rfl

theorem checkHeader_false (idx : LzipIndex) (h : LzipHeader) (hf : (idx.checkHeader h).1 = false) :
    (idx.checkHeader h).2.retval = 2 ∧ (idx.checkHeader h).2.member_vector = idx.member_vector := by
  unfold checkHeader at hf ⊢
  split_ifs at hf ⊢ <;> simp_all

theorem checkHeader_true (idx : LzipIndex) (h : LzipHeader) :
    (idx.checkHeader h).1 = h.check ∧
      ((idx.checkHeader h).1 = true → (idx.checkHeader h).2 = idx) := by
  unfold checkHeader LzipHeader.check
  split_ifs <;> simp_all

end LzipIndex

end Lzip
