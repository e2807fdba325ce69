import Lzip.Decoder.Member
import Lzip.TrailingData
import Lzip.Index.Complete

/-! The member loop of `decompress` (list.cc), which `--test` and `--decompress` run over the
whole input: read a header, classify it, decode one member with a fresh `LZ_decoder`, and go
on from the byte after it, until the input ends or a test fails.

The range decoder is an oracle as in `decode_member`: for the member at the head of the
stream it yields whether `load` accepts it, the symbols, and where its data ends; the
trailer is then read from the stream at that place, so the input is one list of bytes.
The ghost field `members` records, for each member decoded in full, its position and size in
the input and the position and size of its data in the output.

The main result compares the two readers of a multimember file: when `decompress`
accepts a whole file with `--trailing-error`, and each trailer passes `check_consistency`,
the index that `--list` builds lists exactly the members `decompress` decoded. -/
namespace Lzip
namespace Decompress

open TrailingData LzDecoder LzipIndex

/-- What the range decoder does with the member at the head of the stream, and the
uninitialized bytes of the buffer of the new `LZ_decoder`. -/
structure RangeRun where
  loaded : Bool
  symbols : List Symbol
  -- `rdec.member_position()` where the decoder stops reading data: after the End-Of-Stream marker,
  -- where the trailer starts, or where decoding failed
  data_end : Nat
  -- the header's 6 bytes are counted in the member position
  header_read : 6 ≤ data_end
  buffer : Nat → UInt8

/-- The input `decode_member` sees for the member at the head of `T`: `check_trailer`
reads the trailer from the stream where the data ends, and the member position counts
the bytes it read. -/
def memberInput (T : List UInt8) (r : RangeRun) : RangeInput :=
  ⟨r.loaded, r.symbols, T.drop r.data_end, r.data_end + min 20 (T.length - r.data_end)⟩

/-- `rdec.member_position()` after `decode_member`: the trailer's bytes count once
`check_trailer` has read them, which it does for the results 0, 3 and 5. -/
def memberPosition (T : List UInt8) (r : RangeRun) (result : Nat) : Nat :=
  if result = 0 ∨ result = 3 ∨ result = 5 then (memberInput T r).member_position else r.data_end

/-- A member decoded in full. -/
structure DecodedMember where
  pos : Nat
  size : Nat
  data_pos : Nat
  data_size : Nat
  dictionary_size : Nat
deriving DecidableEq, Repr

/-- The entry of the index for the same member. -/
def DecodedMember.toMember (m : DecodedMember) : Member :=
  ⟨⟨m.data_pos, m.data_size⟩, ⟨m.pos, m.size⟩, m.dictionary_size⟩

/-- The variables the loop carries from pass to pass: the bytes written and, as ghost
state, the members decoded in full. -/
structure LoopState where
  out : List UInt8
  members : List DecodedMember

/-- How `decompress` ends: its `retval`, the diagnostic it prints (`none` when it prints
none of its own; the dump of trailing data is left out), the bytes written, and the members
decoded in full. -/
structure Outcome where
  retval : Nat
  message : Option String
  out : List UInt8
  members : List DecodedMember

/-- The diagnostic of `decompress`, at the default verbosity, for a member that
`decode_member` rejected; for 3 and 4 `decode_member` has printed its own. -/
def resultMessage (result partial_file_pos : Nat) : Option String :=
  if result ≤ 2 then
    some ((if result = 2 then "File ends unexpectedly" else "Decoder error") ++ " at pos " ++
      toString partial_file_pos)
  else if result = 5 then some emptyMsg
  else if result = 6 then some markingMsg
  else none

/-- The tests at the head of a pass, on the bytes `T` from the member header on: `none` when
`T` starts a member, else the `retval` and the diagnostic of the `break` (`retval` stays 0
where the trailing data is accepted). -/
def headerBreak (opts : ClOptions) (first_member : Bool) (T : List UInt8) :
    Option (Nat × Option String) :=
  let header := tailHeader T
  let (size, finished) := readData T
  if finished then
    some <|
      if first_member then (2, some "File ends unexpectedly at member header.")
      else if header.checkPrefix size then (2, some "Truncated header in multimember file.")
      else if 0 < size ∧ opts.ignoreTrailing = false then (2, some trailingMsg)
      else (0, none)
  else if header.checkMagic = false then
    some <|
      if first_member then (2, some badMagicMsg)
      else if opts.looseTrailing = false ∧ header.checkCorrupt = true then (2, some corruptMmMsg)
      else if opts.ignoreTrailing = false then (2, some trailingMsg)
      else (0, none)
  else if header.checkVersion = false then some (2, some (badVersion header.version))
  else if isvalidDs header.dictionarySize = false then some (2, some badDictMsg)
  else none

/-- How one pass ends: at the header of the next member, or at a `break`. -/
inductive Pass where
  | next (partial_file_pos : Nat) (st : LoopState)
  | stop (o : Outcome)

/-- One pass of `for( bool first_member = true; ; first_member = false )` over the input `F`,
from the member header at `partial_file_pos`. -/
def decompressPass (opts : ClOptions) (rd : List UInt8 → RangeRun) (F : List UInt8)
    (first_member : Bool) (partial_file_pos : Nat) (st : LoopState) : Pass :=
  let T := F.drop partial_file_pos
  match headerBreak opts first_member T with
  | some (retval, message) => .stop ⟨retval, message, st.out, st.members⟩
  | none =>
    let header := tailHeader T
    let r := rd T
    let (result, d) := decodeMember opts (init header.dictionarySize r.buffer) (memberInput T r)
    let member_size := memberPosition T r result
    if result ≠ 0 then
      .stop ⟨2, resultMessage result (partial_file_pos + member_size), st.out ++ d.out, st.members⟩
    else
      .next (partial_file_pos + member_size)
        ⟨st.out ++ d.out, st.members ++ [⟨partial_file_pos, member_size, st.out.length,
          d.out.length, header.dictionarySize⟩]⟩

/-- The loop, with `fuel` passes at most. -/
def decompressLoop (opts : ClOptions) (rd : List UInt8 → RangeRun) (F : List UInt8) :
    Nat → Bool → Nat → LoopState → Outcome
  | 0, _, _, st => ⟨0, none, st.out, st.members⟩
  | fuel + 1, first_member, partial_file_pos, st =>
    match decompressPass opts rd F first_member partial_file_pos st with
    | .next partial_file_pos st => decompressLoop opts rd F fuel false partial_file_pos st
    | .stop o => o

/-- `decompress` over the input `F`: every member consumes at least its header, so
`|F| + 1` passes are enough. -/
def decompress (opts : ClOptions) (rd : List UInt8 → RangeRun) (F : List UInt8) : Outcome :=
  decompressLoop opts rd F (F.length + 1) true 0 ⟨[], []⟩

def memberA : List UInt8 :=
  [0x4C, 0x5A, 0x49, 0x50, 1, 12, 0, 0, 0, 0, 0, 0, 0, 0, 0, 0,
   0x8B, 0x9E, 0xD9, 0xD3, 1, 0, 0, 0, 0, 0, 0, 0, 36, 0, 0, 0, 0, 0, 0, 0]

def rangeA (_ : List UInt8) : RangeRun :=
  ⟨true, [.literal fun _ => 0x41, .fresh 2 63 0 0x3FFFFFF 15], 16, by decide, fun _ => 0⟩

/-! ### The input as a file -/

theorem getD_drop (l : List UInt8) (n k : Nat) : (l.drop n).getD k 0 = l.getD (n + k) 0 := by
  simp only [List.getD_eq_getElem?_getD, List.getElem?_drop]

theorem tailHeader_drop (F : List UInt8) (pos : Nat) :
    tailHeader (F.drop pos) = (InFile.ofList F).header pos := by
  simp only [tailHeader, InFile.header, InFile.ofList, getD_drop]

theorem readTrailer_drop (F : List UInt8) (pos data_end : Nat)
    (h20 : (readTrailer ((F.drop pos).drop data_end)).1 = 20) :
    (readTrailer ((F.drop pos).drop data_end)).2 = (InFile.ofList F).trailer (pos + data_end) := by
  simp only [readTrailer] at h20 ⊢
  simp only [InFile.trailer, InFile.ofList, h20, Fin.is_lt, if_true, getD_drop, Nat.add_assoc]

/-! ### A member decoded with result 0 -/

theorem decodeMember_eq_zero {opts : ClOptions} {dictionary_size : Nat}
    (hds : isvalidDs dictionary_size = true) {buffer : Nat → UInt8} {rin : RangeInput}
    {d : LzDecoder} (h : decodeMember opts (init dictionary_size buffer) rin = (0, d)) :
    (readTrailer rin.trailer).1 = 20 ∧
      (readTrailer rin.trailer).2.memberSize = rin.member_position ∧
      (readTrailer rin.trailer).2.dataSize = d.out.length ∧
      d.out = Lz77.produced dictionary_size rin.symbols := by
  have hloop := (Sim.start (dictionary_size_pos hds) buffer).loop rin.symbols
  have hprod := Lz77.produced.eq_1 dictionary_size rin.symbols
  unfold decodeMember at h
  cases hl : rin.loaded
  · simp only [hl, Bool.not_false, if_true, Prod.mk.injEq] at h
    exact absurd h.1 (by decide)
  simp only [hl, Bool.not_true, Bool.false_eq_true, if_false] at h
  revert h hloop hprod
  cases he : decodeLoop (.start (init dictionary_size buffer)) rin.symbols <;>
    cases Lz77.absLoop dictionary_size Lz77.AbsState.start rin.symbols <;>
    intro hloop hprod h <;> simp only [ExitRel] at hloop
  case eos.eos s a =>
    obtain ⟨h0, rfl⟩ := Prod.mk.inj h
    obtain ⟨h20, -, hsize, hmember⟩ := checkTrailer_eq_zero h0
    exact ⟨h20, hmember, by rw [hsize, dataPosition, hloop.1.data_pos, hloop.2],
      hloop.2.trans hprod.symm⟩
  case stop.stop c s c' a =>
    obtain ⟨rfl, -⟩ := Prod.mk.inj h
    rcases decodeLoop_stop he with h | h | h <;> omega

/-! ### What one pass can do -/

theorem headerBreak_none {opts : ClOptions} {first_member : Bool} {T : List UInt8}
    (h : headerBreak opts first_member T = none) : (tailHeader T).check = true := by
  simp only [headerBreak, readData, decide_eq_true_eq] at h
  by_cases hf : T.length ≤ 6
  · simp only [hf, if_true, reduceCtorEq] at h
  cases hm : (tailHeader T).checkMagic
  · simp only [hf, hm, if_true, if_false, reduceCtorEq] at h
  cases hv : (tailHeader T).checkVersion
  · simp only [hf, hm, hv, if_true, if_false, Bool.true_eq_false, reduceCtorEq] at h
  cases hds : isvalidDs (tailHeader T).dictionarySize
  · simp only [hf, hm, hv, hds, if_true, if_false, Bool.true_eq_false, reduceCtorEq] at h
  simp only [LzipHeader.check, hm, hv, hds, Bool.and_self]

theorem headerBreak_zero {opts : ClOptions} (hign : opts.ignoreTrailing = false)
    {first_member : Bool} {T : List UInt8} {message : Option String}
    (h : headerBreak opts first_member T = some (0, message)) : first_member = false ∧ T = [] := by
  simp only [headerBreak, readData, hign, decide_eq_true_eq, and_true] at h
  by_cases hf : T.length ≤ 6
  · simp only [hf, if_true, Option.some.injEq] at h
    cases first_member
    · by_cases hp : (tailHeader T).checkPrefix (min 6 T.length) = true
      · simp only [hp, Bool.false_eq_true, if_true, if_false, Prod.mk.injEq] at h; omega
      by_cases hs : 0 < min 6 T.length
      · simp only [hp, hs, Bool.false_eq_true, if_true, if_false, Prod.mk.injEq] at h; omega
      exact ⟨rfl, List.eq_nil_of_length_eq_zero (by omega)⟩
    · simp only [if_true, Prod.mk.injEq] at h; omega
  · simp only [hf, if_false] at h
    split_ifs at h <;> simp at h

theorem headerBreak_trailing (opts : ClOptions) (T : List UInt8) :
    (∀ v, streamTrailing opts T = some v → (headerBreak opts false T).map Prod.fst = some v) ∧
      (streamTrailing opts T = none → headerBreak opts false T = headerBreak opts true T) := by
  simp only [headerBreak, streamTrailing, readData, Bool.false_eq_true, if_false, if_true,
    Bool.and_eq_true, decide_eq_true_eq, Bool.not_eq_true', Bool.not_eq_false]
  by_cases hf : T.length ≤ 6
  · simp only [hf, if_true]
    by_cases hp : (tailHeader T).checkPrefix (min 6 T.length) = true
    · simp [hp]
    by_cases hs : 0 < min 6 T.length ∧ opts.ignoreTrailing = false <;>
      simp only [hp, hs, Bool.false_eq_true, if_true, if_false] <;> simp
  simp only [hf, if_false]
  by_cases hm : (tailHeader T).checkMagic = true
  · simp [hm]
  by_cases hc : opts.looseTrailing = false ∧ (tailHeader T).checkCorrupt = true
  · simp [hm, hc]
  by_cases hi : opts.ignoreTrailing = false <;> simp [hm, hc, hi]

example : headerBreak {} false [0x4C, 0x5A, 0, 0, 0, 0] = some (0, none) := by decide

section Pass

variable {opts : ClOptions} {rd : List UInt8 → RangeRun} {F : List UInt8}
  {first_member : Bool} {pos : Nat} {st : LoopState}

theorem decompressPass_next {pos' : Nat} {st' : LoopState}
    (h : decompressPass opts rd F first_member pos st = .next pos' st') :
    ∃ d, ((InFile.ofList F).header pos).check = true ∧
      decodeMember opts (init ((InFile.ofList F).header pos).dictionarySize (rd (F.drop pos)).buffer)
        (memberInput (F.drop pos) (rd (F.drop pos))) = (0, d) ∧
      pos' = pos + (memberInput (F.drop pos) (rd (F.drop pos))).member_position ∧
      st' = ⟨st.out ++ d.out, st.members ++ [⟨pos,
        (memberInput (F.drop pos) (rd (F.drop pos))).member_position, st.out.length,
        d.out.length, ((InFile.ofList F).header pos).dictionarySize⟩]⟩ := by
  unfold decompressPass at h
  cases hb : headerBreak opts first_member (F.drop pos) with
  | some b => simp only [hb, reduceCtorEq] at h
  | none =>
    have hhd := headerBreak_none hb
    rw [tailHeader_drop] at hhd
    simp only [hb, tailHeader_drop] at h
    generalize hr : decodeMember _ _ _ = r at h
    obtain ⟨result, d⟩ := r
    by_cases h0 : result = 0
    · subst h0
      simp only [ne_eq, not_true_eq_false, if_false, Pass.next.injEq] at h
      obtain ⟨rfl, rfl⟩ := h
      refine ⟨d, hhd, rfl, ?_, ?_⟩ <;> simp only [memberPosition, true_or, if_true]
    · simp only [h0, ne_eq, not_false_eq_true, if_true, reduceCtorEq] at h

theorem decompressPass_member {pos' : Nat} {st' : LoopState}
    (h : decompressPass opts rd F first_member pos st = .next pos' st') :
    ∃ (size : Nat) (d : LzDecoder), ((InFile.ofList F).header pos).check = true ∧ 26 ≤ size ∧
      pos + size ≤ F.length ∧ pos' = pos + size ∧
      ((InFile.ofList F).trailer (pos + size - 20)).memberSize = size ∧
      ((InFile.ofList F).trailer (pos + size - 20)).dataSize = d.out.length ∧
      d.out = Lz77.produced ((InFile.ofList F).header pos).dictionarySize (rd (F.drop pos)).symbols ∧
      st' = ⟨st.out ++ d.out, st.members ++ [⟨pos, size, st.out.length, d.out.length,
        ((InFile.ofList F).header pos).dictionarySize⟩]⟩ := by
  obtain ⟨d, hhd, hdec, rfl, rfl⟩ := decompressPass_next h
  have hvalid : isvalidDs ((InFile.ofList F).header pos).dictionarySize = true := by
    simp only [LzipHeader.check, Bool.and_eq_true] at hhd; exact hhd.2
  obtain ⟨h20, hms, hds, hprod⟩ := decodeMember_eq_zero hvalid hdec
  have h6 := (rd (F.drop pos)).header_read
  have hlen : 20 ≤ F.length - pos - (rd (F.drop pos)).data_end := by
    simp only [readTrailer, memberInput, List.length_drop] at h20
    omega
  have hmp : (memberInput (F.drop pos) (rd (F.drop pos))).member_position =
      (rd (F.drop pos)).data_end + 20 := by
    simp only [memberInput, List.length_drop]
    omega
  have htrail : (InFile.ofList F).trailer
      (pos + (memberInput (F.drop pos) (rd (F.drop pos))).member_position - 20) =
      (readTrailer (memberInput (F.drop pos) (rd (F.drop pos))).trailer).2 := by
    rw [hmp, show pos + ((rd (F.drop pos)).data_end + 20) - 20 = pos + (rd (F.drop pos)).data_end
      by omega]
    exact (readTrailer_drop F pos _ h20).symm
  exact ⟨_, d, hhd, by omega, by omega, rfl, by rw [htrail, hms], by rw [htrail, hds], hprod, rfl⟩

theorem decompressPass_stop_zero (hign : opts.ignoreTrailing = false) {o : Outcome}
    (h : decompressPass opts rd F first_member pos st = .stop o) (h0 : o.retval = 0) :
    o.out = st.out ∧ o.members = st.members ∧ first_member = false ∧ F.length ≤ pos := by
  unfold decompressPass at h
  cases hb : headerBreak opts first_member (F.drop pos) with
  | some b =>
    simp only [hb, Pass.stop.injEq] at h
    subst h
    obtain ⟨retval, message⟩ := b
    obtain rfl : retval = 0 := h0
    obtain ⟨hfirst, hT⟩ := headerBreak_zero hign hb
    exact ⟨rfl, rfl, hfirst, List.drop_eq_nil_iff.1 hT⟩
  | none =>
    simp only [hb] at h
    generalize decodeMember _ _ _ = r at h
    obtain ⟨result, d⟩ := r
    by_cases hr : result = 0
    · simp only [hr, ne_eq, not_true_eq_false, if_false, reduceCtorEq] at h
    · simp only [hr, ne_eq, not_false_eq_true, if_true, Pass.stop.injEq] at h
      subst h
      cases h0

/-- The passes after the first member follow `streamTrailing`: on bytes it classifies as
trailing data the pass stops with its verdict and leaves the output and the members as they
were, and on bytes it reads as a new member the pass runs as the first one does. -/
theorem decompressPass_trailing :
    (∀ r, streamTrailing opts (F.drop pos) = some r →
      ∃ message, decompressPass opts rd F false pos st = .stop ⟨r, message, st.out, st.members⟩) ∧
    (streamTrailing opts (F.drop pos) = none →
      decompressPass opts rd F false pos st = decompressPass opts rd F true pos st) := by
  refine ⟨fun r h => ?_, fun h => by simp only [decompressPass, (headerBreak_trailing opts _).2 h]⟩
  have hb := (headerBreak_trailing opts (F.drop pos)).1 r h
  cases hb' : headerBreak opts false (F.drop pos) with
  | none => rw [hb'] at hb; cases hb
  | some b =>
    rw [hb'] at hb
    obtain ⟨r', message⟩ := b
    cases hb
    exact ⟨message, by simp only [decompressPass, hb']⟩

end Pass

/-! ### The whole run -/

/-- The trailer recorded for a decoded member passes `check_consistency`. -/
def Consistent (F : List UInt8) (m : DecodedMember) : Prop :=
  ((InFile.ofList F).trailer (m.pos + m.size - 20)).checkConsistency = true

instance (F : List UInt8) : DecidablePred (Consistent F) :=
  fun _ => inferInstanceAs (Decidable (_ = true))

theorem decompressLoop_walk (opts : ClOptions) (rd : List UInt8 → RangeRun) (F : List UInt8)
    (hign : opts.ignoreTrailing = false) (fuel : Nat) :
    ∀ first_member pos st, pos ≤ F.length → F.length - pos < fuel →
      (decompressLoop opts rd F fuel first_member pos st).retval = 0 →
      (∀ m ∈ (decompressLoop opts rd F fuel first_member pos st).members, Consistent F m) →
      ∃ ms, (decompressLoop opts rd F fuel first_member pos st).members = st.members ++ ms ∧
        (first_member = true → ms ≠ []) ∧
        LaidOut (InFile.ofList F) pos (ms.map DecodedMember.size) F.length ∧
        ms.map DecodedMember.toMember =
          layout (InFile.ofList F) pos st.out.length (ms.map DecodedMember.size) ∧
        (decompressLoop opts rd F fuel first_member pos st).out.length =
          st.out.length + dataTotal (InFile.ofList F) pos (ms.map DecodedMember.size) := by
  induction fuel with
  | zero => intro _ _ _ _ hfuel; omega
  | succ fuel ih =>
    intro first_member pos st hpos hfuel h0 hcons
    simp only [decompressLoop] at h0 hcons ⊢
    cases hp : decompressPass opts rd F first_member pos st with
    | next pos' st' =>
      simp only [hp] at h0 hcons ⊢
      obtain ⟨size, d, hhd, h26, hle, rfl, hms, hds, -, rfl⟩ := decompressPass_member hp
      obtain ⟨ms, hmem, -, hlay, hmap, hout⟩ := ih false _ _ hle (by omega) h0 hcons
      let m : DecodedMember :=
        ⟨pos, size, st.out.length, d.out.length, ((InFile.ofList F).header pos).dictionarySize⟩
      have hc : ((InFile.ofList F).trailer (pos + size - 20)).checkConsistency = true :=
        hcons m (by rw [hmem]; simp)
      have h36 : 36 ≤ size := hms ▸ checkConsistency_memberSize _ hc
      refine ⟨m :: ms, by rw [hmem, List.append_assoc, List.singleton_append],
        fun _ => List.cons_ne_nil _ _, ⟨h36, hhd, hms, hc, hlay⟩, ?_, ?_⟩
      · simp only [List.length_append] at hmap
        simp only [List.map_cons, layout, hds, hmap]
        rfl
      · simp only [hout, List.map_cons, dataTotal, hds, List.length_append, Nat.add_assoc]
    | stop o =>
      simp only [hp] at h0 hcons ⊢
      obtain ⟨hout, hmem, rfl, hend⟩ := decompressPass_stop_zero hign hp h0
      exact ⟨[], by simp [hmem], by simp, by simp only [List.map_nil, LaidOut]; omega, rfl, by
        simp [hout, dataTotal]⟩

/-! ### The bytes written -/

/-- The bytes the LZ77 decoding of a decoded member's symbols produces. -/
def memberBytes (rd : List UInt8 → RangeRun) (F : List UInt8) (m : DecodedMember) : List UInt8 :=
  Lz77.produced m.dictionary_size (rd (F.drop m.pos)).symbols

def Placed (rd : List UInt8 → RangeRun) (F out : List UInt8) (ms : List DecodedMember) : Prop :=
  ∀ m ∈ ms, m.data_pos + m.data_size ≤ out.length ∧
    (out.drop m.data_pos).take m.data_size = memberBytes rd F m

theorem Placed.append {rd : List UInt8 → RangeRun} {F out : List UInt8} {ms : List DecodedMember}
    (h : Placed rd F out ms) (e : List UInt8) : Placed rd F (out ++ e) ms := fun m hm => by
  obtain ⟨hle, heq⟩ := h m hm
  refine ⟨by rw [List.length_append]; omega, ?_⟩
  rw [List.drop_append_of_le_length (by omega), List.take_append_of_le_length
    (by rw [List.length_drop]; omega), heq]

theorem decompressLoop_fuel (opts : ClOptions) (rd : List UInt8 → RangeRun) (F : List UInt8)
    (fuel : Nat) :
    ∀ fuel' first_member pos st, (F.length - pos) / 26 < fuel → fuel ≤ fuel' →
      decompressLoop opts rd F fuel' first_member pos st =
        decompressLoop opts rd F fuel first_member pos st := by
  induction fuel with
  | zero => intro _ _ _ _ h; omega
  | succ fuel ih =>
    intro fuel' first_member pos st hfuel hle
    obtain ⟨fuel', rfl⟩ : ∃ k, fuel' = k + 1 := ⟨fuel' - 1, by omega⟩
    simp only [decompressLoop]
    cases hp : decompressPass opts rd F first_member pos st with
    | next pos' st' =>
      obtain ⟨size, d, -, h26, hsize, rfl, -⟩ := decompressPass_member hp
      exact ih _ _ _ _ (by omega) (by omega)
    | stop o => rfl

/-- The loop of `decompress` ends within `|F| / 26 + 1` passes, whatever the range decoder
yields: a pass that goes on has read a member of at least 26 bytes. Any bound above
`|F| / 26` gives the outcome of `decompress`. -/
theorem decompress_passes (opts : ClOptions) (rd : List UInt8 → RangeRun) (F : List UInt8)
    (n : Nat) (hn : F.length / 26 < n) :
    decompressLoop opts rd F n true 0 ⟨[], []⟩ = decompress opts rd F := by
  rw [decompress, decompressLoop_fuel opts rd F (F.length / 26 + 1) n _ _ _ (by omega) (by omega),
    decompressLoop_fuel opts rd F (F.length / 26 + 1) (F.length + 1) _ _ _ (by omega) (by omega)]

theorem decompress_passes_memberA :
    memberA.length / 26 < 2 ∧
      decompressLoop {} rangeA memberA 2 true 0 ⟨[], []⟩ = decompress {} rangeA memberA :=
  ⟨by decide, decompress_passes _ _ _ 2 (by decide)⟩

/-- With `--trailing-error`, a file that `decompress` accepts, shorter than `2^63` bytes and
decompressing to fewer than `2^63` bytes, whose trailers each pass `check_consistency`, is
one the index accepts too, and the index lists exactly the members `decompress` decoded: the
same positions and sizes in the file, the same data positions and sizes, and the same
dictionary sizes. -/
theorem build_lists_decoded_members (opts : ClOptions) (rd : List UInt8 → RangeRun)
    (F : List UInt8) (hign : opts.ignoreTrailing = false) (h0 : (decompress opts rd F).retval = 0)
    (hcons : ∀ m ∈ (decompress opts rd F).members, Consistent F m) (hF : F.length < 2 ^ 63)
    (hout : (decompress opts rd F).out.length < 2 ^ 63) :
    (build (InFile.ofList F) opts).retval = 0 ∧
      (build (InFile.ofList F) opts).member_vector =
        (decompress opts rd F).members.map DecodedMember.toMember := by
  obtain ⟨ms, hmem, hne, hlay, hmap, hlen⟩ :=
    decompressLoop_walk opts rd F hign (F.length + 1) true 0 ⟨[], []⟩ (Nat.zero_le _)
      (by omega) h0 hcons
  have hne' : ms.map DecodedMember.size ≠ [] := by simpa using hne rfl
  obtain ⟨s, ss, hss⟩ := List.exists_cons_of_ne_nil hne'
  have h36 : 36 ≤ F.length := by
    rw [hss] at hlay
    exact Nat.le_trans hlay.1 (by simpa using hlay.2.2.2.2.le)
  rw [build_of_mainLoop _ opts h36 hF (by rw [hss] at hlay; exact hlay.2.1) _ _
    (mainLoop_layout _ opts _ F.length hne' hlay hF (.inl rfl))]
  obtain ⟨hret, hvec⟩ := finish_pushAll _ _ F.length hne' hlay hF (by rw [decompress, hlen] at hout; simpa using hout)
  refine ⟨hret, ?_⟩
  rw [hvec, show (decompress opts rd F).members = ms from hmem, hmap]
  rfl

theorem build_lists_decoded_members_memberA :
    ({ ignoreTrailing := false } : ClOptions).ignoreTrailing = false ∧
      (decompress { ignoreTrailing := false } rangeA memberA).retval = 0 ∧
      (∀ m ∈ (decompress { ignoreTrailing := false } rangeA memberA).members,
        Consistent memberA m) ∧ memberA.length < 2 ^ 63 ∧
      (decompress { ignoreTrailing := false } rangeA memberA).out.length < 2 ^ 63 ∧
      (build (InFile.ofList memberA) { ignoreTrailing := false }).retval = 0 ∧
      (build (InFile.ofList memberA) { ignoreTrailing := false }).member_vector =
        (decompress { ignoreTrailing := false } rangeA memberA).members.map
          DecodedMember.toMember :=
  ⟨rfl, by decide, by decide, by decide, by decide,
    build_lists_decoded_members _ _ _ rfl (by decide) (by decide) (by decide) (by decide)⟩

example : (decompress { ignoreTrailing := false } rangeA memberA).members = [⟨0, 36, 0, 1, 4096⟩] ∧
    (decompress { ignoreTrailing := false } rangeA memberA).out = [0x41] := by
  decide

end Decompress
end Lzip
