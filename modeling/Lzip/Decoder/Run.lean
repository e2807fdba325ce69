import Lzip.Decoder.Lz77

/-! The loop of `decode_member` refines the abstract LZ77 decoder: pass by pass, the two
take the same branch, and the decoder's dictionary represents the abstract history
(`Sim`). The rep distances stay inside the window and reach back to produced output, the
invariant the repeated matches rely on, since only a fresh distance is checked. -/
namespace Lzip

namespace Lz77

def AbsState.start : AbsState := ⟨[], 0, 0, 0, 0, State.init⟩

/-- The bytes the symbols `syms` produce from the start of a member. -/
def produced (dictionary_size : Nat) (syms : List Symbol) : List UInt8 :=
  match absLoop dictionary_size AbsState.start syms with
  | .eos a => a.hist
  | .stop _ a => a.hist

end Lz77

/-- The loop's variables after the passes over `syms`, if every pass continues. -/
def loopPrefix (s : DecodeState) : List Symbol → Option DecodeState
  | [] => some s
  | sym :: syms =>
    match s.step sym with
    | .next s' => loopPrefix s' syms
    | _ => none

namespace Lz77

def absPrefix (dictionary_size : Nat) (a : AbsState) : List Symbol → Option AbsState
  | [] => some a
  | sym :: syms =>
    match absStep dictionary_size a sym with
    | .next a' => absPrefix dictionary_size a' syms
    | _ => none

def RepOk (dictionary_size : Nat) (hist : List UInt8) (rep : Nat) : Prop :=
  rep < dictionary_size ∧ (rep < hist.length ∨ rep = 0)

theorem RepOk.mono {n : Nat} {hist hist' : List UInt8} {rep : Nat} (h : RepOk n hist rep)
    (hl : hist.length ≤ hist'.length) : RepOk n hist' rep :=
  ⟨h.1, h.2.imp (fun h => by omega) id⟩

end Lz77

open Lz77 LzDecoder

/-- The simulation relation, for a dictionary of `n` bytes: the decoder represents the
abstract history, the other loop variables agree, and the rep distances are valid. -/
structure Sim (n : Nat) (s : DecodeState) (a : AbsState) : Prop where
  dict : DictRep s.dec a.hist
  dsize : s.dec.dictionary_size = n
  rep0 : s.rep0 = a.rep0
  rep1 : s.rep1 = a.rep1
  rep2 : s.rep2 = a.rep2
  rep3 : s.rep3 = a.rep3
  state : s.state = a.state
  ok0 : RepOk n a.hist a.rep0
  ok1 : RepOk n a.hist a.rep1
  ok2 : RepOk n a.hist a.rep2
  ok3 : RepOk n a.hist a.rep3

def Flushed (s : DecodeState) (a : AbsState) : Prop :=
  DictRep s.dec a.hist ∧ s.dec.out = a.hist

def StepRel (n : Nat) : Step → AbsStep → Prop
  | .next s, .next a => Sim n s a
  | .eos s, .eos a => Flushed s a
  | .stop c s, .stop c' a => c = c' ∧ Flushed s a
  | _, _ => False

def ExitRel : Exit → AbsExit → Prop
  | .eos s, .eos a => Flushed s a
  | .stop c s, .stop c' a => c = c' ∧ Flushed s a
  | _, _ => False

@[simp] theorem copyBlock_dictionary_size (d : LzDecoder) (distance len : Nat) :
    (d.copyBlock distance len).dictionary_size = d.dictionary_size := by
  induction len generalizing d with
  | zero => rfl
  | succ len ih => simp [LzDecoder.copyBlock, ih]

theorem LzDecoder.DictRep.distance_bad_iff {d : LzDecoder} {hist : List UInt8} (h : DictRep d hist)
    (distance : Nat) :
    (distance ≥ d.dictionary_size ∨ (distance ≥ d.pos ∧ d.pos_wrapped = false)) ↔
      (distance ≥ d.dictionary_size ∨ distance ≥ hist.length) := by
  have hd := h.data_pos
  cases hw : d.pos_wrapped
  · have := h.unwrapped hw
    simp only [and_true]
    omega
  · have := h.wrapped hw
    simp only [Bool.true_eq_false, and_false, or_false]
    omega

section Step

variable {n : Nat} {s : DecodeState} {a : AbsState}

theorem Sim.copy (h : Sim n s a) {distance : Nat} (hok : RepOk n a.hist distance) (len : Nat) :
    DictRep (s.dec.copyBlock distance len) (Lz77.copy distance len a.hist) ∧
      ∀ r, RepOk n a.hist r → RepOk n (Lz77.copy distance len a.hist) r :=
  ⟨h.dict.copyBlock (h.dsize ▸ hok.1) hok.2 len, fun _ hr => hr.mono (by rw [length_copy]; omega)⟩

theorem Lz77.RepOk.append {hist : List UInt8} {r : Nat} (hr : RepOk n hist r) (b : UInt8) :
    RepOk n (hist ++ [b]) r :=
  hr.mono (by simp)

theorem Sim.putByte (h : Sim n s a) (b : UInt8) (st : State) :
    Sim n { s with dec := s.dec.putByte b, state := st } { a with hist := a.hist ++ [b], state := st } :=
  ⟨h.dict.putByte b, by simpa using h.dsize, h.rep0, h.rep1, h.rep2, h.rep3, rfl, h.ok0.append b,
    h.ok1.append b, h.ok2.append b, h.ok3.append b⟩

theorem Sim.step (h : Sim n s a) (sym : Symbol) : StepRel n (s.step sym) (absStep n a sym) := by
  obtain ⟨hd, hn, h0, h1, h2, h3, hst, ok0, ok1, ok2, ok3⟩ := id h
  have hpeek : s.dec.peek s.rep0 = back a.hist a.rep0 := by
    rw [h0]; exact hd.peek_eq (hn ▸ ok0.1) ok0.2
  cases sym with
  | literal byte =>
    simp only [DecodeState.step, absStep, hst, hpeek]
    exact h.putByte _ _
  | shortRep =>
    simp only [DecodeState.step, absStep, hst, hpeek]
    exact h.putByte _ _
  | rep0 len =>
    have hc := h.copy ok0 len
    simp only [DecodeState.step, absStep, hst, h0]
    exact ⟨hc.1, by simpa using hn, rfl, h1, h2, h3, rfl, hc.2 _ ok0, hc.2 _ ok1, hc.2 _ ok2,
      hc.2 _ ok3⟩
  | rep1 len =>
    have hc := h.copy ok1 len
    simp only [DecodeState.step, absStep, hst, h0, h1]
    exact ⟨hc.1, by simpa using hn, rfl, rfl, h2, h3, rfl, hc.2 _ ok1, hc.2 _ ok0, hc.2 _ ok2,
      hc.2 _ ok3⟩
  | rep2 len =>
    have hc := h.copy ok2 len
    simp only [DecodeState.step, absStep, hst, h0, h1, h2]
    exact ⟨hc.1, by simpa using hn, rfl, rfl, rfl, h3, rfl, hc.2 _ ok2, hc.2 _ ok0, hc.2 _ ok1,
      hc.2 _ ok3⟩
  | rep3 len =>
    have hc := h.copy ok3 len
    simp only [DecodeState.step, absStep, hst, h0, h1, h2, h3]
    exact ⟨hc.1, by simpa using hn, rfl, rfl, rfl, rfl, rfl, hc.2 _ ok3, hc.2 _ ok0, hc.2 _ ok1,
      hc.2 _ ok2⟩
  | fresh len dis_slot low direct align =>
    have hflush := hd.toPending.flushData (.inl hd.pos_lt)
    simp only [DecodeState.step, absStep]
    cases decodeDistance dis_slot low direct align with
    | none =>
      dsimp only
      split_ifs
      · exact hflush
      · exact ⟨hflush.1, by simpa using hn, h0, h1, h2, h3, hst, ok0, ok1, ok2, ok3⟩
      · exact ⟨rfl, hflush⟩
    | some distance =>
      dsimp only
      have hb := hd.distance_bad_iff distance
      rw [hn] at hb
      simp only [hn, hb]
      split_ifs with hbad
      · exact ⟨rfl, hflush⟩
      · have hok : RepOk n a.hist distance := by
          simp only [not_or, not_le] at hbad; exact ⟨hbad.1, .inl hbad.2⟩
        have hc := h.copy hok len
        exact ⟨hc.1, by simpa using hn, rfl, h0, h1, h2, by rw [hst], hc.2 _ hok, hc.2 _ ok0,
          hc.2 _ ok1, hc.2 _ ok2⟩

/-- The run lemma: the whole loop simulates the abstract decoder. -/
theorem Sim.loop (h : Sim n s a) (syms : List Symbol) :
    ExitRel (decodeLoop s syms) (absLoop n a syms) := by
  induction syms generalizing s a with
  | nil => exact ⟨rfl, h.dict.toPending.flushData (.inl h.dict.pos_lt)⟩
  | cons sym syms ih =>
    have hs := h.step sym
    simp only [decodeLoop, absLoop]
    generalize s.step sym = r at hs
    generalize absStep n a sym = r' at hs
    cases r <;> cases r' <;> simp only [StepRel] at hs <;> first | exact hs | exact ih hs

theorem Sim.loopPrefix (h : Sim n s a) (syms : List Symbol) (s' : DecodeState)
    (hs : loopPrefix s syms = some s') :
    ∃ a', absPrefix n a syms = some a' ∧ Sim n s' a' := by
  induction syms generalizing s a with
  | nil => cases hs; exact ⟨a, rfl, h⟩
  | cons sym syms ih =>
    have hst := h.step sym
    simp only [loopPrefix] at hs
    simp only [absPrefix]
    generalize s.step sym = r at hs hst
    generalize absStep n a sym = r' at hst
    cases r <;> cases r' <;> simp only [StepRel] at hst hs <;> first | exact ih hst hs | cases hs

end Step

end Lzip
