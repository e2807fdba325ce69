import Lzip.Index.SkipTrailing

/-! The two classifications of the bytes `T` that follow the last complete member: the
stream path of `decompress` (list.cc), used by `--test` and `--decompress`, and
`skip_trailing_data` of the index, used by `--list`. They agree on every tail except one of
exactly six bytes that holds two or three magic bytes: the stream path reads it to the end
of the file and takes its end-of-file branch, which does not apply `check_corrupt`. -/
namespace Lzip
namespace TrailingData

/-- The header buffer filled from the first bytes of `T`. -/
def tailHeader (T : List UInt8) : LzipHeader := ⟨fun k => T.getD k 0⟩

/-- Modelled from the spec: `Range_decoder::read_data( buf, 6 )` copies the first
`min(6, |T|)` bytes of what remains of the input and `finished()` then tells whether nothing
remains (decoder.h is not part of the sources). -/
def readData (T : List UInt8) : Nat × Bool := (min 6 T.length, decide (T.length ≤ 6))

/-- The classification in `decompress` of what follows a member that is not the first:
`some 0` accepts it as trailing data, `some 2` rejects it, `none` reads it as a new member.
`show_trailing_data( ..., ignore_trailing )` returns `ignore_trailing > 0`. -/
def streamTrailing (opts : ClOptions) (T : List UInt8) : Option Nat :=
  let header := tailHeader T
  let (size, finished) := readData T
  if finished then
    if header.checkPrefix size then some 2
    else if 0 < size && !opts.ignoreTrailing then some 2
    else some 0
  else if !header.checkMagic then
    if !opts.looseTrailing && header.checkCorrupt then some 2
    else if !opts.ignoreTrailing then some 2
    else some 0
  else none

/-- The verdict of `skip_trailing_data` on a last member followed by `T`: `header2` holds the
first bytes of `T` and `full_h2` is `|T| >= 6`. The other arguments of the decision only
shape the member it pushes. -/
def indexAccepts (opts : ClOptions) (T : List UInt8) : Bool :=
  (LzipIndex.trailingDecision ⟨[], "", 0, 0, 0⟩ opts T.length (tailHeader T) T.length
    ⟨fun _ => 0⟩ ⟨fun _ => 0⟩ T.length 0).1

theorem trailingDecision_fst (idx : LzipIndex) (opts : ClOptions) (pos : Nat) (h2 : LzipHeader)
    (sz : Nat) (t : LzipTrailer) (hd : LzipHeader) (e ms : Nat) :
    (LzipIndex.trailingDecision idx opts pos h2 sz t hd e ms).1 =
      (!h2.checkPrefix sz && !(!opts.looseTrailing && decide (6 ≤ sz) && h2.checkCorrupt) &&
        opts.ignoreTrailing) := by
  have hrhs : (!h2.checkPrefix sz && !(!opts.looseTrailing && decide (6 ≤ sz) && h2.checkCorrupt) &&
      opts.ignoreTrailing) = true ↔ LzipIndex.TrailingOk opts h2 sz := by
    simp only [LzipIndex.TrailingOk]
    cases opts.looseTrailing <;> cases opts.ignoreTrailing <;> simp [and_comm, imp_iff_not_or]
  rw [Bool.eq_iff_iff, hrhs]
  exact ⟨LzipIndex.trailingDecision_true _ _ _ _ _ _ _ _ _,
    fun h => by rw [LzipIndex.trailingDecision_accept _ _ _ _ _ _ _ _ _ h]⟩

/-- Outside the tails that start a new member, the stream path rejects exactly when the
index does, except on a tail of exactly six bytes with two or three magic bytes in place,
with `ignore_trailing` set and `loose_trailing` clear, which the index rejects as a corrupt
header while the stream path accepts it. -/
theorem streamTrailing_rejects_iff (opts : ClOptions) (T : List UInt8) (hT : T ≠ [])
    (hnew : ¬(6 < T.length ∧ (tailHeader T).checkMagic = true)) :
    (streamTrailing opts T = some 2 ↔ indexAccepts opts T = false) ↔
      ¬(T.length = 6 ∧ opts.ignoreTrailing = true ∧ opts.looseTrailing = false ∧
        (tailHeader T).checkPrefix 6 = false ∧ (tailHeader T).checkCorrupt = true) := by
  have hpos : 0 < T.length := List.length_pos.2 hT
  have hprefix : 6 < T.length → (tailHeader T).checkPrefix T.length = (tailHeader T).checkMagic := by
    intro h
    simp only [LzipHeader.checkPrefix, LzipHeader.checkMagic, hpos, decide_True, Bool.and_true,
      decide_eq_decide]
    exact ⟨fun hh i => hh i (by omega), fun hh i _ => hh i⟩
  simp only [indexAccepts, trailingDecision_fst, streamTrailing, readData]
  by_cases h6 : T.length ≤ 6
  · simp only [h6, decide_True, if_true, Nat.min_eq_right h6, hpos, decide_True, Bool.true_and]
    rcases Nat.lt_or_eq_of_le h6 with hlt | heq
    · simp only [show ¬6 ≤ T.length by omega, decide_False, Bool.and_false, Bool.false_and,
        Bool.not_false, Bool.and_true, show T.length ≠ 6 by omega, false_and, not_false_eq_true,
        iff_true]
      cases (tailHeader T).checkPrefix T.length <;> cases opts.ignoreTrailing <;> simp
    · rw [heq]
      cases (tailHeader T).checkPrefix 6 <;> cases opts.ignoreTrailing <;>
        cases opts.looseTrailing <;> cases (tailHeader T).checkCorrupt <;> simp
  · have hm := hprefix (by omega)
    simp only [h6, decide_False, if_false, show 6 ≤ T.length by omega, decide_True, Bool.and_true,
      hm, show T.length ≠ 6 by omega, false_and, not_false_eq_true, iff_true]
    have hmag : (tailHeader T).checkMagic = false := by simpa [show 6 < T.length by omega] using hnew
    simp only [hmag, Bool.not_false, if_true]
    cases opts.ignoreTrailing <;> cases opts.looseTrailing <;>
      cases (tailHeader T).checkCorrupt <;> simp

/-- The six bytes `L Z 0 0 0 0` after a member, with the default options (`ignore_trailing`
set, `loose_trailing` clear): `--test` accepts them as trailing data, `--list` rejects the
file with "Corrupt header in multimember file.". -/
theorem streamTrailing_lz0000 :
    [0x4C, 0x5A, 0, 0, 0, 0] ≠ ([] : List UInt8) ∧
      ¬(6 < [0x4C, 0x5A, 0, 0, 0, (0 : UInt8)].length ∧
        (tailHeader [0x4C, 0x5A, 0, 0, 0, 0]).checkMagic = true) ∧
      streamTrailing {} [0x4C, 0x5A, 0, 0, 0, 0] = some 0 ∧
      indexAccepts {} [0x4C, 0x5A, 0, 0, 0, 0] = false ∧
      (LzipIndex.trailingDecision ⟨[], "", 0, 0, 0⟩ {} 6 (tailHeader [0x4C, 0x5A, 0, 0, 0, 0]) 6
        ⟨fun _ => 0⟩ ⟨fun _ => 0⟩ 6 0).2.1.error = corruptMmMsg ∧
      ¬(streamTrailing {} [0x4C, 0x5A, 0, 0, 0, 0] = some 2 ↔
        indexAccepts {} [0x4C, 0x5A, 0, 0, 0, 0] = false) :=
  ⟨by decide, by decide, by decide, by decide, by decide,
    (streamTrailing_rejects_iff {} [0x4C, 0x5A, 0, 0, 0, 0] (by decide) (by decide)).not.2
      (by decide)⟩

end TrailingData
end Lzip
