import Lzip.Decoder.Run

/-! The contract of `decode_member`, read off the refinement of its loop. At the start of
every pass the decoder represents the bytes produced so far, so the bytes written, the CRC
and the counters describe exactly that output; every return with codes 0 to 5 comes after a
flush; a return of 0 has decoded the End-Of-Stream marker and checked the trailer against
the bytes written. The four rep distances always reach back to produced output, which is
what makes the unchecked repeated matches safe. -/
namespace Lzip

open Lz77 LzDecoder

theorem dictionary_size_pos {dictionary_size : Nat} (h : isvalidDs dictionary_size = true) :
    0 < dictionary_size := by
  simp only [isvalidDs, Bool.and_eq_true, decide_eq_true_eq, minDictionarySize_eq] at h
  omega

namespace Lz77

theorem absLoop_append {n : Nat} {a a' : AbsState} {pre : List Symbol}
    (h : absPrefix n a pre = some a') (rest : List Symbol) :
    absLoop n a (pre ++ rest) = absLoop n a' rest := by
  induction pre generalizing a with
  | nil => cases h; rfl
  | cons sym pre ih =>
    simp only [absPrefix] at h
    simp only [List.cons_append, absLoop]
    cases hs : absStep n a sym <;> simp only [hs] at h ⊢
    · exact ih h
    all_goals cases h

theorem produced_of_absPrefix {n : Nat} {pre : List Symbol} {a : AbsState}
    (h : absPrefix n AbsState.start pre = some a) : produced n pre = a.hist := by
  have hrun := absLoop_append h []
  rw [List.append_nil] at hrun
  simp only [produced, hrun, absLoop]

end Lz77

theorem Sim.start {dictionary_size : Nat} (h : 0 < dictionary_size) (buffer : Nat → UInt8) :
    Sim dictionary_size (.start (init dictionary_size buffer)) AbsState.start :=
  have ok : RepOk dictionary_size [] 0 := ⟨h, .inr rfl⟩
  ⟨dictRep_init _ buffer h, rfl, rfl, rfl, rfl, rfl, rfl, ok, ok, ok, ok⟩

theorem sim_of_loopPrefix {dictionary_size : Nat} (hds : isvalidDs dictionary_size = true)
    (buffer : Nat → UInt8) {pre : List Symbol} {s : DecodeState}
    (hs : loopPrefix (.start (init dictionary_size buffer)) pre = some s) :
    ∃ a, Sim dictionary_size s a ∧ a.hist = produced dictionary_size pre := by
  obtain ⟨a, ha, hsim⟩ := (Sim.start (dictionary_size_pos hds) buffer).loopPrefix pre s hs
  exact ⟨a, hsim, (produced_of_absPrefix ha).symm⟩

theorem DecodeState.step_eos {s s' : DecodeState} {sym : Symbol} (h : s.step sym = .eos s') :
    ∃ dis_slot low direct align, sym = .fresh minMatchLen dis_slot low direct align ∧
      decodeDistance dis_slot low direct align = none ∧ s' = { s with dec := s.dec.flushData } := by
  cases sym with
  | fresh len dis_slot low direct align =>
    simp only [DecodeState.step] at h
    cases hd : decodeDistance dis_slot low direct align <;> simp only [hd] at h
    · split_ifs at h with hlen
      cases h
      exact ⟨dis_slot, low, direct, align, by rw [hlen], hd, rfl⟩
    · split_ifs at h
  | _ => simp [DecodeState.step] at h

theorem DecodeState.step_stop {s s' : DecodeState} {sym : Symbol} {code : Nat}
    (h : s.step sym = .stop code s') : code = 1 ∨ code = 4 := by
  cases sym with
  | fresh len dis_slot low direct align =>
    simp only [DecodeState.step] at h
    cases hd : decodeDistance dis_slot low direct align <;> simp only [hd] at h <;>
      split_ifs at h <;> cases h <;> simp
  | _ => simp [DecodeState.step] at h

theorem decodeLoop_stop {s s' : DecodeState} {syms : List Symbol} {code : Nat}
    (h : decodeLoop s syms = .stop code s') : code = 1 ∨ code = 2 ∨ code = 4 := by
  induction syms generalizing s with
  | nil => cases h; simp
  | cons sym syms ih =>
    simp only [decodeLoop] at h
    cases hs : s.step sym with
    | next s₁ => simp only [hs] at h; exact ih h
    | eos s₁ => simp only [hs] at h; cases h
    | stop c s₁ =>
      simp only [hs] at h
      cases h
      rcases DecodeState.step_stop hs with rfl | rfl <;> simp

theorem decodeLoop_eos {s s' : DecodeState} {syms : List Symbol}
    (h : decodeLoop s syms = .eos s') :
    ∃ pre dis_slot low direct align post s₀,
      syms = pre ++ .fresh minMatchLen dis_slot low direct align :: post ∧
      decodeDistance dis_slot low direct align = none ∧ loopPrefix s pre = some s₀ ∧
      s' = { s₀ with dec := s₀.dec.flushData } := by
  induction syms generalizing s with
  | nil => cases h
  | cons sym syms ih =>
    simp only [decodeLoop] at h
    cases hs : s.step sym with
    | next s₁ =>
      simp only [hs] at h
      obtain ⟨pre, dis_slot, low, direct, align, post, s₀, rfl, hd, hpre, rfl⟩ := ih h
      exact ⟨sym :: pre, dis_slot, low, direct, align, post, s₀, rfl, hd,
        by simp only [loopPrefix, hs, hpre], rfl⟩
    | eos s₁ =>
      simp only [hs] at h
      cases h
      obtain ⟨dis_slot, low, direct, align, rfl, hd, rfl⟩ := DecodeState.step_eos hs
      exact ⟨[], dis_slot, low, direct, align, syms, s, rfl, hd, rfl, rfl⟩
    | stop code s₁ => simp only [hs] at h; cases h

theorem LzDecoder.checkTrailer_eq_zero {d : LzDecoder} {ignore_empty : Bool}
    {data : List UInt8} {member_size : Nat}
    (h : d.checkTrailer ignore_empty data member_size = 0) :
    (readTrailer data).1 = 20 ∧ (readTrailer data).2.dataCrc = d.crcValue ∧
      (readTrailer data).2.dataSize = d.dataPosition ∧
      (readTrailer data).2.memberSize = member_size := by
  have hle : (readTrailer data).1 ≤ 20 := Nat.min_le_right _ _
  unfold checkTrailer at h
  revert h hle
  generalize readTrailer data = r
  obtain ⟨size, t⟩ := r
  intro h hle
  dsimp only at h ⊢
  split_ifs at h with herr
  simp only [Bool.or_eq_true, decide_eq_true_eq, bne_iff_ne, ne_eq, not_or, not_not] at herr
  obtain ⟨⟨⟨h20, hcrc⟩, hsize⟩, hmember⟩ := herr
  exact ⟨by omega, hcrc, hsize, hmember⟩

/-- Between passes `stream_pos ≤ pos < dictionary_size`, the bytes written followed by the
pending tail are exactly the bytes produced, and the CRC register and
`partial_data_pos + stream_pos` are those of the bytes written. A return with a code up to 5
has written every produced byte; a return of 0 follows the End-Of-Stream marker and a full
trailer whose CRC and data size are those of the bytes written. -/
theorem decodeMember_output (dictionary_size : Nat) (hds : isvalidDs dictionary_size = true)
    (buffer : Nat → UInt8) (opts : ClOptions) (rin : RangeInput) :
    (∀ pre s, loopPrefix (.start (init dictionary_size buffer)) pre = some s →
      s.dec.stream_pos ≤ s.dec.pos ∧ s.dec.pos < dictionary_size ∧
      s.dec.out ++ s.dec.chunk s.dec.stream_pos s.dec.pos = produced dictionary_size pre ∧
      s.dec.crc = CRC32.updateBuf 0xFFFFFFFF#32 s.dec.out ∧
      s.dec.partial_data_pos + s.dec.stream_pos = s.dec.out.length) ∧
    ∀ code d, decodeMember opts (init dictionary_size buffer) rin = (code, d) →
      (code ≤ 5 → d.out = produced dictionary_size rin.symbols ∧
        d.crc = CRC32.updateBuf 0xFFFFFFFF#32 d.out) ∧
      (code = 0 →
        (∃ pre dis_slot low direct align post,
          rin.symbols = pre ++ .fresh minMatchLen dis_slot low direct align :: post ∧
          decodeDistance dis_slot low direct align = none ∧
          (loopPrefix (.start (init dictionary_size buffer)) pre).isSome) ∧
        (readTrailer rin.trailer).1 = 20 ∧
        (readTrailer rin.trailer).2.dataCrc =
          (CRC32.updateBuf 0xFFFFFFFF#32 d.out ^^^ 0xFFFFFFFF#32).toNat ∧
        (readTrailer rin.trailer).2.dataSize = d.out.length) := by
  refine ⟨fun pre s hs => ?_, fun code d hr => ?_⟩
  · obtain ⟨a, hsim, ha⟩ := sim_of_loopPrefix hds buffer hs
    have hd := hsim.dict
    have hlen : s.dec.out.length = s.dec.partial_data_pos + s.dec.stream_pos := by
      rw [hd.out_eq, List.length_take, ← hd.data_pos]
      have := hd.stream_le
      omega
    exact ⟨hd.stream_le, hsim.dsize ▸ hd.pos_lt, ha ▸ hd.history_eq, hd.crc_eq, hlen.symm⟩
  have hloop := (Sim.start (dictionary_size_pos hds) buffer).loop rin.symbols
  unfold decodeMember at hr
  cases hl : rin.loaded
  · simp only [hl, Bool.not_false, if_true, Prod.mk.injEq] at hr
    obtain ⟨rfl, -⟩ := hr
    exact ⟨fun h => absurd h (by decide), fun h => absurd h (by decide)⟩
  simp only [hl, Bool.not_true, Bool.false_eq_true, if_false] at hr
  have hprod := produced.eq_1 dictionary_size rin.symbols
  revert hr hloop hprod
  cases he : decodeLoop (.start (init dictionary_size buffer)) rin.symbols <;>
    cases absLoop dictionary_size AbsState.start rin.symbols <;>
    intro hloop hr hprod <;> simp only [ExitRel] at hloop
  case eos.eos s a =>
    cases hr
    refine ⟨fun _ => ⟨hloop.2.trans hprod.symm, hloop.1.crc_eq⟩, fun h0 => ?_⟩
    obtain ⟨h20, hcrc, hsize, -⟩ := checkTrailer_eq_zero h0
    obtain ⟨pre, dis_slot, low, direct, align, post, s₀, hsyms, hdis, hpre, -⟩ := decodeLoop_eos he
    refine ⟨⟨pre, dis_slot, low, direct, align, post, hsyms, hdis, by rw [hpre]; rfl⟩, h20,
      by rw [hcrc, crcValue, hloop.1.crc_eq], ?_⟩
    rw [hsize, dataPosition, hloop.1.data_pos, hloop.2]
  case stop.stop c s c' a =>
    cases hr
    refine ⟨fun _ => ⟨hloop.2.2.trans hprod.symm, hloop.2.1.crc_eq⟩, fun h0 => ?_⟩
    rcases decodeLoop_stop he with h | h | h <;> omega

theorem decodeMember_output_byteA :
    isvalidDs 4096 = true ∧
      decodeMember {} (init 4096 fun _ => 0)
        ⟨true, [.literal fun _ => 0x41, .fresh 2 63 0 0x3FFFFFF 15],
          [0x8B, 0x9E, 0xD9, 0xD3, 1, 0, 0, 0, 0, 0, 0, 0, 30, 0, 0, 0, 0, 0, 0, 0], 30⟩ =
        (0, (decodeMember {} (init 4096 fun _ => 0)
          ⟨true, [.literal fun _ => 0x41, .fresh 2 63 0 0x3FFFFFF 15],
            [0x8B, 0x9E, 0xD9, 0xD3, 1, 0, 0, 0, 0, 0, 0, 0, 30, 0, 0, 0, 0, 0, 0, 0], 30⟩).2) ∧
      (decodeMember {} (init 4096 fun _ => 0)
        ⟨true, [.literal fun _ => 0x41, .fresh 2 63 0 0x3FFFFFF 15],
          [0x8B, 0x9E, 0xD9, 0xD3, 1, 0, 0, 0, 0, 0, 0, 0, 30, 0, 0, 0, 0, 0, 0, 0], 30⟩).2.out =
        [0x41] :=
  have h := (decodeMember_output 4096 (by decide) (fun _ => 0) {}
    ⟨true, [.literal fun _ => 0x41, .fresh 2 63 0 0x3FFFFFF 15],
      [0x8B, 0x9E, 0xD9, 0xD3, 1, 0, 0, 0, 0, 0, 0, 0, 30, 0, 0, 0, 0, 0, 0, 0], 30⟩).2 _ _
    (Prod.ext (by decide) rfl)
  ⟨by decide, Prod.ext (by decide) rfl, (h.1 (by decide)).1.trans (by decide)⟩

/-- At the start of every pass each of the four distances is below `dictionary_size`, and
below `pos` unless the buffer has wrapped or the distance still holds its initial 0. `peek`
at it reads the produced byte it names (the cleared cell before any byte is produced), and a
`copy_block` from it appends exactly the bytes of the LZ77 copy. Until the first wrap, `pos`
counts every produced byte. -/
theorem decodeMember_reps_inWindow (dictionary_size : Nat)
    (hds : isvalidDs dictionary_size = true) (buffer : Nat → UInt8) (pre : List Symbol)
    (s : DecodeState) (hs : loopPrefix (.start (init dictionary_size buffer)) pre = some s) :
    (s.dec.pos_wrapped = false → s.dec.pos = (produced dictionary_size pre).length) ∧
    ∀ rep ∈ [s.rep0, s.rep1, s.rep2, s.rep3],
      rep < dictionary_size ∧ (rep < s.dec.pos ∨ s.dec.pos_wrapped = true ∨ rep = 0) ∧
      s.dec.peek rep = back (produced dictionary_size pre) rep ∧
      ∀ len, (s.dec.copyBlock rep len).history = copy rep len (produced dictionary_size pre) := by
  obtain ⟨a, hsim, ha⟩ := sim_of_loopPrefix hds buffer hs
  rw [← ha]
  have hd := hsim.dict
  have hpos : s.dec.pos_wrapped = false → s.dec.pos = a.hist.length := fun hw => by
    have := hd.data_pos
    rw [hd.unwrapped hw] at this
    omega
  have hrep : ∀ rep, RepOk dictionary_size a.hist rep →
      rep < dictionary_size ∧ (rep < s.dec.pos ∨ s.dec.pos_wrapped = true ∨ rep = 0) ∧
      s.dec.peek rep = back a.hist rep ∧
      ∀ len, (s.dec.copyBlock rep len).history = copy rep len a.hist := fun rep hr =>
    ⟨hr.1, by
      cases hw : s.dec.pos_wrapped
      · rcases hr.2 with h | h
        · exact .inl (hpos hw ▸ h)
        · exact .inr (.inr h)
      · exact .inr (.inl rfl),
     hd.peek_eq (hsim.dsize ▸ hr.1) hr.2, fun len => (hsim.copy hr len).1.history_eq⟩
  refine ⟨hpos, ?_⟩
  simp only [List.mem_cons, List.mem_singleton, List.not_mem_nil, or_false]
  rintro rep (rfl | rfl | rfl | rfl)
  · exact hsim.rep0 ▸ hrep _ hsim.ok0
  · exact hsim.rep1 ▸ hrep _ hsim.ok1
  · exact hsim.rep2 ▸ hrep _ hsim.ok2
  · exact hsim.rep3 ▸ hrep _ hsim.ok3

theorem decodeMember_reps_inWindow_abab :
    isvalidDs 4096 = true ∧
      loopPrefix (.start (init 4096 fun _ => 0))
          [.literal fun _ => 0x41, .literal fun _ => 0x42, .fresh 2 1 0 0 0] =
        some ⟨(((init 4096 fun _ => 0).putByte 0x41).putByte 0x42).copyBlock 1 2, 1, 0, 0, 0, ⟨7⟩⟩ ∧
      ((((init 4096 fun _ => 0).putByte 0x41).putByte 0x42).copyBlock 1 2).peek 1 = 0x41 :=
  have h := decodeMember_reps_inWindow 4096 (by decide) (fun _ => 0)
    [.literal fun _ => 0x41, .literal fun _ => 0x42, .fresh 2 1 0 0 0] _ rfl
  ⟨by decide, rfl, ((h.2 1 (by simp)).2.2.1).trans (by decide)⟩

end Lzip
