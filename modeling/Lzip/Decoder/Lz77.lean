import Lzip.Decoder.Basic

/-! What the decoder is meant to compute, and how its circular dictionary represents it.

`Lz77.absStep` decodes a symbol into an unbounded history of produced bytes: a literal
appends its byte, a match appends bytes copied from `distance + 1` places behind the end,
and a distance is refused unless it stays within the window and reaches back to produced
output. `DictRep d hist` says that the decoder `d` represents the history `hist`: the bytes
`flush_data` has written are `hist` minus the pending tail `buffer[stream_pos..pos)`, the
CRC is that of the written bytes, and `peek` reads the produced byte at every distance
inside the window. The operations keep `DictRep`. -/
namespace Lzip
namespace Lz77

/-- The produced byte `distance + 1` places behind the end of `hist`, or 0 when there is
none (the cell the constructor clears). -/
def back (hist : List UInt8) (distance : Nat) : UInt8 :=
  if distance < hist.length then hist.getD (hist.length - 1 - distance) 0 else 0

/-- Append `len` bytes, each copied from `distance + 1` places behind the end. -/
def copy (distance : Nat) : Nat → List UInt8 → List UInt8
  | 0, hist => hist
  | len + 1, hist => copy distance len (hist ++ [back hist distance])

structure AbsState where
  hist : List UInt8
  rep0 : Nat
  rep1 : Nat
  rep2 : Nat
  rep3 : Nat
  state : State

inductive AbsStep
  | next (a : AbsState)
  | eos (a : AbsState)
  | stop (code : Nat) (a : AbsState)

/-- LZ77 decoding of one symbol with a window of `dictionary_size` bytes. -/
def absStep (dictionary_size : Nat) (a : AbsState) : Symbol → AbsStep
  | .literal byte =>
    let (plain, state) := a.state.isCharSetChar
    .next { a with hist := a.hist ++ [byte (if plain then none else some (back a.hist a.rep0))],
                   state := state }
  | .shortRep => .next { a with state := a.state.setShortRep, hist := a.hist ++ [back a.hist a.rep0] }
  | .rep0 len => .next { a with state := a.state.setRep, hist := copy a.rep0 len a.hist }
  | .rep1 len =>
    .next { a with rep1 := a.rep0, rep0 := a.rep1, state := a.state.setRep,
                   hist := copy a.rep1 len a.hist }
  | .rep2 len =>
    .next { a with rep2 := a.rep1, rep1 := a.rep0, rep0 := a.rep2, state := a.state.setRep,
                   hist := copy a.rep2 len a.hist }
  | .rep3 len =>
    .next { a with rep3 := a.rep2, rep2 := a.rep1, rep1 := a.rep0, rep0 := a.rep3,
                   state := a.state.setRep, hist := copy a.rep3 len a.hist }
  | .fresh len dis_slot low direct align =>
    match decodeDistance dis_slot low direct align with
    | none => if len = minMatchLen then .eos a else if len = minMatchLen + 1 then .next a else .stop 4 a
    | some distance =>
      let a := { a with rep3 := a.rep2, rep2 := a.rep1, rep1 := a.rep0, rep0 := distance,
                        state := a.state.setMatch }
      if distance ≥ dictionary_size ∨ distance ≥ a.hist.length then .stop 1 a
      else .next { a with hist := copy distance len a.hist }

inductive AbsExit
  | eos (a : AbsState)
  | stop (code : Nat) (a : AbsState)

def absLoop (dictionary_size : Nat) (a : AbsState) : List Symbol → AbsExit
  | [] => .stop 2 a
  | sym :: syms =>
    match absStep dictionary_size a sym with
    | .next a' => absLoop dictionary_size a' syms
    | .eos a' => .eos a'
    | .stop code a' => .stop code a'

@[simp] theorem back_append_zero (hist : List UInt8) (b : UInt8) : back (hist ++ [b]) 0 = b := by
  simp [back, List.getD_eq_getElem?_getD]

@[simp] theorem back_append_succ (hist : List UInt8) (b : UInt8) (j : Nat) :
    back (hist ++ [b]) (j + 1) = back hist j := by
  unfold back
  by_cases hj : j < hist.length
  · rw [if_pos (by simp; omega), if_pos hj, List.getD_eq_getElem?_getD, List.getD_eq_getElem?_getD,
      List.getElem?_append_left (by simp; omega)]
    congr 2
    simp only [List.length_append, List.length_singleton]
    omega
  · rw [if_neg (by simp; omega), if_neg hj]

theorem length_copy (distance len : Nat) (hist : List UInt8) :
    (copy distance len hist).length = hist.length + len := by
  induction len generalizing hist with
  | zero => rfl
  | succ len ih => simp only [copy, ih, List.length_append, List.length_singleton]; omega

end Lz77

namespace LzDecoder

/-- The decoder `d`, possibly just before the flush at the end of its buffer, represents the
produced bytes `hist`. -/
structure Pending (d : LzDecoder) (hist : List UInt8) : Prop where
  dict_pos : 0 < d.dictionary_size
  stream_le : d.stream_pos ≤ d.pos
  pos_le : d.pos ≤ d.dictionary_size
  data_pos : d.partial_data_pos + d.pos = hist.length
  out_eq : d.out = hist.take (d.partial_data_pos + d.stream_pos)
  crc_eq : d.crc = CRC32.updateBuf 0xFFFFFFFF#32 d.out
  unwrapped : d.pos_wrapped = false → d.partial_data_pos = 0
  wrapped : d.pos_wrapped = true → d.dictionary_size ≤ hist.length
  cells : ∀ j < d.dictionary_size, (j < hist.length ∨ j = 0) → d.peek j = Lz77.back hist j

/-- The decoder `d` between two calls: `pos` is inside the buffer. -/
structure DictRep (d : LzDecoder) (hist : List UInt8) extends Pending d hist : Prop where
  pos_lt : d.pos < d.dictionary_size

theorem dictRep_init (dictionary_size : Nat) (buffer : Nat → UInt8) (h : 0 < dictionary_size) :
    DictRep (init dictionary_size buffer) [] where
  dict_pos := h
  stream_le := le_rfl
  pos_le := Nat.zero_le _
  data_pos := rfl
  out_eq := rfl
  crc_eq := rfl
  unwrapped := fun _ => rfl
  wrapped := fun h => by simp [init] at h
  cells := fun j _ hj => by
    obtain rfl : j = 0 := by simpa using hj
    simp [peek, init, Lz77.back]
  pos_lt := h

theorem updateBuf_append (c : BitVec 32) (a b : List UInt8) :
    CRC32.updateBuf c (a ++ b) = CRC32.updateBuf (CRC32.updateBuf c a) b := by
  simp [CRC32.updateBuf, List.foldl_append]

theorem Pending.chunk_eq {d : LzDecoder} {hist : List UInt8} (h : Pending d hist) :
    d.chunk d.stream_pos d.pos = hist.drop (d.partial_data_pos + d.stream_pos) := by
  have hd := h.data_pos
  have hs := h.stream_le
  apply List.ext_getElem
  · simp [chunk]; omega
  intro k hk1 hk2
  simp only [chunk, List.length_map, List.length_range] at hk1
  have hcell := h.cells (d.pos - 1 - (d.stream_pos + k)) (by have := h.pos_le; omega) (.inl (by omega))
  simp only [peek, Lz77.back, if_pos (show d.pos - 1 - (d.stream_pos + k) < d.pos by omega),
    if_pos (show d.pos - 1 - (d.stream_pos + k) < hist.length by omega), Nat.zero_add,
    List.getD_eq_getElem?_getD] at hcell
  simp only [chunk, List.getElem_map, List.getElem_range, List.getElem_drop]
  rw [show d.pos - (d.pos - 1 - (d.stream_pos + k)) - 1 = d.stream_pos + k by omega] at hcell
  rw [hcell, show hist.length - 1 - (d.pos - 1 - (d.stream_pos + k)) =
    d.partial_data_pos + d.stream_pos + k by omega, List.getElem?_eq_getElem (by omega)]
  rfl

/-- The produced bytes the decoder holds: those `flush_data` has written, then the pending
tail `buffer[stream_pos..pos)`. -/
def history (d : LzDecoder) : List UInt8 := d.out ++ d.chunk d.stream_pos d.pos

theorem Pending.history_eq {d : LzDecoder} {hist : List UInt8} (h : Pending d hist) :
    d.history = hist := by
  rw [history, h.out_eq, h.chunk_eq, List.take_append_drop]

theorem Pending.flushData {d : LzDecoder} {hist : List UInt8} (h : Pending d hist)
    (hflush : d.pos < d.dictionary_size ∨ d.stream_pos < d.pos) :
    DictRep d.flushData hist ∧ d.flushData.out = hist := by
  have hd := h.data_pos
  have hs := h.stream_le
  have hp := h.pos_le
  have hall : d.out ++ d.chunk d.stream_pos d.pos = hist := h.history_eq
  unfold LzDecoder.flushData
  by_cases hgt : d.pos > d.stream_pos
  · rw [if_pos hgt]
    by_cases hwrap : d.pos ≥ d.dictionary_size
    · simp only [if_pos hwrap]
      refine ⟨⟨⟨h.dict_pos, le_rfl, Nat.zero_le _, by simp; omega, ?_, ?_, by simp, fun _ => by simp; omega,
        fun j hj hj' => ?_⟩, h.dict_pos⟩, hall⟩
      · simp only [Nat.add_zero, hall]
        rw [show d.partial_data_pos + d.pos = hist.length by omega, List.take_length]
      · simp only [h.crc_eq, updateBuf_append]
      · dsimp only at hj
        rw [← h.cells j (by omega) hj']
        simp only [peek]
        rw [if_neg (by omega), if_pos (by omega)]
        congr 1
        omega
    · simp only [if_neg hwrap]
      refine ⟨⟨⟨h.dict_pos, le_rfl, hp, hd, ?_, ?_, h.unwrapped, h.wrapped, h.cells⟩,
        by dsimp only; omega⟩, hall⟩
      · simp only [hall]
        rw [hd, List.take_length]
      · simp only [h.crc_eq, updateBuf_append]
  · rw [if_neg hgt]
    have heq : d.stream_pos = d.pos := by omega
    refine ⟨⟨h, by omega⟩, ?_⟩
    rw [h.out_eq, heq, hd, List.take_length]

theorem DictRep.putByte {d : LzDecoder} {hist : List UInt8} (h : DictRep d hist) (b : UInt8) :
    DictRep (d.putByte b) (hist ++ [b]) := by
  have hd := h.data_pos
  have hs := h.stream_le
  have hp := h.pos_lt
  have hpend : Pending { d with buffer := Function.update d.buffer d.pos b, pos := d.pos + 1 }
      (hist ++ [b]) := by
    refine ⟨h.dict_pos, by simp; omega, by simp; omega, by simp; omega, ?_, h.crc_eq, h.unwrapped,
      fun hw => by have := h.wrapped hw; simp; omega, fun j hj hj' => ?_⟩
    · simp only [h.out_eq]
      rw [List.take_append_of_le_length (by omega)]
    · dsimp only at hj
      cases j with
      | zero =>
        simp only [peek, Lz77.back_append_zero]
        rw [if_pos (by omega), show 0 + (d.pos + 1) - 0 - 1 = d.pos by omega, Function.update_same]
      | succ j =>
        rw [Lz77.back_append_succ, ← h.cells j (by omega) (by simp at hj'; omega)]
        simp only [peek]
        rw [Function.update_noteq (by split_ifs <;> omega)]
        congr 1
        split_ifs <;> omega
  unfold LzDecoder.putByte
  dsimp only
  split_ifs with hwrap
  · exact (hpend.flushData (.inr (by simp; omega))).1
  · exact ⟨hpend, by simp; omega⟩

theorem DictRep.peek_eq {d : LzDecoder} {hist : List UInt8} (h : DictRep d hist) {distance : Nat}
    (hlt : distance < d.dictionary_size) (hback : distance < hist.length ∨ distance = 0) :
    d.peek distance = Lz77.back hist distance :=
  h.cells distance hlt hback

theorem DictRep.copyBlock {d : LzDecoder} {hist : List UInt8} (h : DictRep d hist) {distance : Nat}
    (hlt : distance < d.dictionary_size) (hback : distance < hist.length ∨ distance = 0) (len : Nat) :
    DictRep (d.copyBlock distance len) (Lz77.copy distance len hist) := by
  induction len generalizing d hist with
  | zero => exact h
  | succ len ih =>
    simp only [LzDecoder.copyBlock, Lz77.copy]
    rw [h.peek_eq hlt hback]
    have h' := h.putByte (Lz77.back hist distance)
    refine ih h' ?_ ?_
    · simpa using hlt
    · rcases hback with hb | rfl
      · exact .inl (by simp; omega)
      · exact .inr rfl

end LzDecoder
end Lzip
