import Lzip.Index.Build

/-! The converse of `build_sound`: on a file made of well-formed members, possibly followed by
trailing data that passes the trailing-data tests, the constructor lists exactly those
members, with their data blocks at the prefix sums of the data sizes. The backward walk
over the members is the run lemma `mainLoop_walk`. -/
namespace Lzip
namespace LzipIndex

/-- Members of sizes `sizes` laid out from byte `p` to byte `q` of the file: each at least
36 bytes long, starting with a header that passes `check()` and ending with a trailer that
passes `check_consistency` and records the member's size. -/
def LaidOut (f : InFile) : Nat → List Nat → Nat → Prop
  | p, [], q => p = q
  | p, s :: ss, q => 36 ≤ s ∧ (f.header p).check = true ∧
      (f.trailer (p + s - 20)).memberSize = s ∧ (f.trailer (p + s - 20)).checkConsistency = true ∧
      LaidOut f (p + s) ss q

def dataTotal (f : InFile) : Nat → List Nat → Nat
  | _, [] => 0
  | p, s :: ss => (f.trailer (p + s - 20)).dataSize + dataTotal f (p + s) ss

/-- The index entries of such members: member blocks at their positions, data blocks at the
prefix sums of the data sizes from `dp` on. -/
def layout (f : InFile) : Nat → Nat → List Nat → List Member
  | _, _, [] => []
  | p, dp, s :: ss =>
    ⟨⟨dp, (f.trailer (p + s - 20)).dataSize⟩, ⟨p, s⟩, (f.header p).dictionarySize⟩ ::
      layout f (p + s) (dp + (f.trailer (p + s - 20)).dataSize) ss

def rawLayout (f : InFile) : Nat → List Nat → List Member
  | _, [] => []
  | p, s :: ss =>
    Member.mk' 0 (f.trailer (p + s - 20)).dataSize p s (f.header p).dictionarySize ::
      rawLayout f (p + s) ss

def pushAll (f : InFile) (idx : LzipIndex) : Nat → List Nat → LzipIndex
  | _, [] => idx
  | p, s :: ss =>
    (pushAll f idx (p + s) ss).pushMember (f.trailer (p + s - 20)).dataSize p s
      (f.header p).dictionarySize

section Walk

variable {f : InFile}

theorem LaidOut.le {p q : Nat} {ss : List Nat} (h : LaidOut f p ss q) : p ≤ q := by
  induction ss generalizing p with
  | nil => exact Nat.le_of_eq h
  | cons s ss ih => exact Nat.le_trans (Nat.le_add_right _ _) (ih h.2.2.2.2)

theorem laidOut_append {p q : Nat} {ss : List Nat} {s : Nat} :
    LaidOut f p (ss ++ [s]) q ↔ ∃ r, LaidOut f p ss r ∧ LaidOut f r [s] q := by
  induction ss generalizing p with
  | nil => simp [LaidOut]
  | cons t ss ih =>
    show (_ ∧ _ ∧ _ ∧ _ ∧ LaidOut f (p + t) (ss ++ [s]) q) ↔ _
    rw [ih]
    constructor
    · rintro ⟨h1, h2, h3, h4, r, h5, h6⟩; exact ⟨r, ⟨h1, h2, h3, h4, h5⟩, h6⟩
    · rintro ⟨r, ⟨h1, h2, h3, h4, h5⟩, h6⟩; exact ⟨h1, h2, h3, h4, r, h5, h6⟩

@[simp] theorem pushAll_retval (idx : LzipIndex) (p : Nat) (ss : List Nat) :
    (pushAll f idx p ss).retval = idx.retval := by
  induction ss generalizing p with
  | nil => rfl
  | cons s ss ih => simp [pushAll, ih]

@[simp] theorem pushAll_member_vector (idx : LzipIndex) (p : Nat) (ss : List Nat) :
    (pushAll f idx p ss).member_vector = idx.member_vector ++ (rawLayout f p ss).reverse := by
  induction ss generalizing p with
  | nil => simp [pushAll, rawLayout]
  | cons s ss ih => simp [pushAll, rawLayout, ih]

theorem pushAll_append (idx : LzipIndex) (p : Nat) (ss : List Nat) (s : Nat) :
    pushAll f idx p (ss ++ [s]) = pushAll f (pushAll f idx (p + ss.sum) [s]) p ss := by
  induction ss generalizing p with
  | nil => rfl
  | cons t ss ih =>
    show (pushAll f idx (p + t) (ss ++ [s])).pushMember _ _ _ _ = _
    simp only [ih, pushAll, List.sum_cons, Nat.add_assoc]

theorem LaidOut.sum_eq {p q : Nat} {ss : List Nat} (h : LaidOut f p ss q) : p + ss.sum = q := by
  induction ss generalizing p with
  | nil => simpa using h
  | cons s ss ih => rw [List.sum_cons, ← Nat.add_assoc]; exact ih h.2.2.2.2

theorem LaidOut.candidate {p q s : Nat} (h : LaidOut f p [s] q) : Candidate f q := by
  obtain ⟨h36, hhd, hms, hcons, rfl⟩ := h
  refine ⟨by omega, hcons, ?_⟩
  rwa [hms, Nat.add_sub_cancel]

theorem mainLoop_walk (opts : ClOptions) {q : Nat} (hq : q ≤ f.size) (ss : List Nat) :
    ∀ (p : Nat) (idx : LzipIndex), LaidOut f p ss q →
      mainLoop f opts idx q = mainLoop f opts (pushAll f idx p ss) p := by
  induction ss with
  | nil => intro p idx h; cases h; rfl
  | cons s ss ih =>
    intro p idx h
    have h36 := h.1
    have hrest := h.2.2.2.2
    rw [ih (p + s) idx hrest]
    have hc : Candidate f (p + s) :=
      LaidOut.candidate (show LaidOut f p [s] (p + s) from ⟨h.1, h.2.1, h.2.2.1, h.2.2.2.1, rfl⟩)
    rw [mainLoop_next f opts _ _ _ _ (by omega)
      (loopStep_candidate f opts _ _ hc (Nat.le_trans hrest.le hq))]
    simp only [candidateMember, h.2.2.1, Nat.add_sub_cancel, pushAll]

theorem setDataPositions_rawLayout {q : Nat} (hq : q < 2 ^ 63) (ss : List Nat) :
    ∀ (p dp s : Nat), LaidOut f p (s :: ss) q → dp + dataTotal f p (s :: ss) < 2 ^ 63 →
      setDataPositions ⟨⟨dp, (f.trailer (p + s - 20)).dataSize⟩, ⟨p, s⟩,
          (f.header p).dictionarySize⟩ (rawLayout f (p + s) ss) =
        some (layout f p dp (s :: ss)) := by
  induction ss with
  | nil =>
    intro p dp s _ hd
    simp only [dataTotal, Nat.add_zero] at hd
    simp only [setDataPositions, endOk, Block.end, int64Max, rawLayout, layout]
    rw [if_pos (by simp only [decide_eq_true_eq]; omega)]
  | cons s2 ss ih =>
    intro p dp s h hd
    have hrest := h.2.2.2.2
    have hle := hrest.le
    have hle2 := hrest.2.2.2.2.le
    simp only [dataTotal] at hd
    have hconv : ∀ x, x < 2 ^ 63 → toInt64 x = x := fun x hx => toInt64_of_lt hx
    simp only [rawLayout, setDataPositions, endOk, Block.end, int64Max, Member.mk']
    rw [if_pos (by simp only [decide_eq_true_eq]; omega), hconv _ (by omega), hconv _ (by omega),
      hconv _ (by omega), show ((dp : Int) + ((f.trailer (p + s - 20)).dataSize : Int)) =
        ((dp + (f.trailer (p + s - 20)).dataSize : Nat) : Int) by push_cast; rfl,
      ih (p + s) _ s2 hrest (by simp only [dataTotal]; omega)]
    rfl

end Walk

theorem build_of_mainLoop (f : InFile) (opts : ClOptions) (h36 : 36 ≤ f.size)
    (hf : f.size < 2 ^ 63) (hhd : (f.header 0).check = true) (idx : LzipIndex) (pos : Nat)
    (h : mainLoop f opts ⟨[], "", f.size, 0, 0⟩ f.size = .brk idx pos) :
    build f opts = finish idx pos := by
  have hc := (checkHeader_true ⟨[], "", f.size, 0, 0⟩ (f.header 0)).1
  unfold build
  simp only [InFile.readCount, hhd, hc, minMemberSize_eq, int64Max, h]
  rw [if_neg (by omega), if_neg (by simp), if_neg (by omega), if_neg (by omega)]

theorem finish_pushAll (f : InFile) (sizes : List Nat) (M : Nat) (hne : sizes ≠ [])
    (hlay : LaidOut f 0 sizes M) (hM : M < 2 ^ 63) (hdata : dataTotal f 0 sizes < 2 ^ 63) :
    (finish (pushAll f ⟨[], "", f.size, 0, 0⟩ 0 sizes) 0).retval = 0 ∧
      (finish (pushAll f ⟨[], "", f.size, 0, 0⟩ 0 sizes) 0).member_vector = layout f 0 0 sizes := by
  obtain ⟨s, ss, rfl⟩ := List.exists_cons_of_ne_nil hne
  have hle := hlay.2.2.2.2.le
  unfold finish
  simp only [pushAll_member_vector, List.nil_append, List.reverse_reverse, pushAll_retval,
    ne_eq, not_true_eq_false, List.reverse_eq_nil_iff, rawLayout, reduceCtorEq, or_self, if_false]
  have hsd : dataTotal f 0 (s :: ss) < 2 ^ 63 := hdata
  simp only [dataTotal] at hsd
  have hm : Member.mk' 0 (f.trailer (0 + s - 20)).dataSize 0 s (f.header 0).dictionarySize =
      ⟨⟨((0 : Nat) : Int), (f.trailer (0 + s - 20)).dataSize⟩, ⟨((0 : Nat) : Int), s⟩,
        (f.header 0).dictionarySize⟩ := by
    simp only [Member.mk', toInt64_of_lt (show 0 < 2 ^ 63 by omega),
      toInt64_of_lt (show (f.trailer (0 + s - 20)).dataSize < 2 ^ 63 by omega),
      toInt64_of_lt (show s < 2 ^ 63 by omega), Nat.cast_zero]
  rw [hm, setDataPositions_rawLayout hM ss 0 0 s hlay (by simpa using hdata)]
  exact ⟨rfl, rfl⟩

/-- The loop from the end of a file of laid-out members, possibly followed by a tail that
holds no candidate and passes the trailing-data tests, pushes exactly those members. -/
theorem mainLoop_layout (f : InFile) (opts : ClOptions) (sizes : List Nat) (M : Nat)
    (hne : sizes ≠ []) (hlay : LaidOut f 0 sizes M) (hf : f.size < 2 ^ 63)
    (htail : M = f.size ∨ M < f.size ∧ (∀ e, M < e → e ≤ f.size → ¬Candidate f e) ∧
      TrailingOk opts (f.header M) (f.size - M)) :
    mainLoop f opts ⟨[], "", f.size, 0, 0⟩ f.size =
      .brk (pushAll f ⟨[], "", f.size, 0, 0⟩ 0 sizes) 0 := by
  rcases htail with rfl | ⟨hlt, hnone, hok⟩
  · rw [mainLoop_walk opts le_rfl _ 0 _ hlay, mainLoop_guard _ _ _ _ (by omega)]
  rw [← List.dropLast_append_getLast hne] at hlay ⊢
  obtain ⟨r, hinit, hlast⟩ := laidOut_append.1 hlay
  have hcM := hlast.candidate
  obtain ⟨h36, -, hms, -, rfl⟩ := hlast
  have hr := hinit.le
  obtain ⟨msg, num, hstep⟩ := loopStep_not_candidate f opts ⟨[], "", f.size, 0, 0⟩ f.size
    (hnone _ hlt le_rfl) (by omega) le_rfl
  have hskip : badMember f opts ⟨[], "", f.size, 0, 0⟩ f.size msg num =
      .next (pushAll f ⟨[], "", f.size, 0, 0⟩ r [sizes.getLast hne]) r := by
    unfold badMember
    rw [if_pos rfl]
    dsimp only
    rw [skipTrailingData_plain f opts f.size _ (by omega) le_rfl (by omega),
      plainSearch_reach f opts f.size _ _ f.size (by omega) (by omega) hcM hnone,
      trailingDecision_accept _ _ _ _ _ _ _ _ _ hok]
    simp only [hms, Nat.add_sub_cancel, if_true, pushAll]
  rw [mainLoop_next f opts _ _ _ _ (by omega) (hstep.trans hskip),
    mainLoop_walk opts (by omega) _ 0 _ hinit, ← hinit.sum_eq, ← pushAll_append,
    mainLoop_guard _ _ _ _ (by omega)]

/-- Members laid out over `[0, M)` of a file shorter than `2^63` bytes, with an exact data
total below `2^63`, followed by nothing or by a tail that holds no candidate trailer and
passes the trailing-data tests: the constructor succeeds and lists exactly those members,
with their positions, member sizes, data sizes, data positions as prefix sums of the data
sizes, and dictionary sizes. -/
theorem build_layout (f : InFile) (opts : ClOptions) (sizes : List Nat) (M : Nat)
    (hne : sizes ≠ []) (hlay : LaidOut f 0 sizes M) (hf : f.size ≤ 2 ^ 63 - 1)
    (hdata : dataTotal f 0 sizes ≤ 2 ^ 63 - 1)
    (htail : M = f.size ∨ M < f.size ∧ (∀ e, M < e → e ≤ f.size → ¬Candidate f e) ∧
      TrailingOk opts (f.header M) (f.size - M)) :
    (build f opts).retval = 0 ∧ (build f opts).member_vector = layout f 0 0 sizes := by
  have hM : M ≤ f.size := by rcases htail with h | h <;> omega
  have hloop := mainLoop_layout f opts sizes M hne hlay (by omega) htail
  obtain ⟨s, ss, rfl⟩ := List.exists_cons_of_ne_nil hne
  have h36 : 36 ≤ M := Nat.le_trans hlay.1 (by simpa using hlay.2.2.2.2.le)
  rw [build_of_mainLoop f opts (by omega) (by omega) hlay.2.1 _ _ hloop]
  exact finish_pushAll f _ M hne hlay (by omega) (by omega)

theorem build_layout_memberThenGarbage :
    LaidOut memberThenGarbage 0 [36] 36 ∧ memberThenGarbage.size ≤ 2 ^ 63 - 1 ∧
      dataTotal memberThenGarbage 0 [36] ≤ 2 ^ 63 - 1 ∧
      (36 = memberThenGarbage.size ∨ 36 < memberThenGarbage.size ∧
        (∀ e, 36 < e → e ≤ memberThenGarbage.size → ¬Candidate memberThenGarbage e) ∧
        TrailingOk {} (memberThenGarbage.header 36) (memberThenGarbage.size - 36)) ∧
      ((build memberThenGarbage {}).retval = 0 ∧
        (build memberThenGarbage {}).member_vector = layout memberThenGarbage 0 0 [36]) := by
  have hlay : LaidOut memberThenGarbage 0 [36] 36 := by simp only [LaidOut]; decide
  have htail : 36 = memberThenGarbage.size ∨ 36 < memberThenGarbage.size ∧
      (∀ e, 36 < e → e ≤ memberThenGarbage.size → ¬Candidate memberThenGarbage e) ∧
      TrailingOk {} (memberThenGarbage.header 36) (memberThenGarbage.size - 36) := by
    refine .inr ⟨by decide, fun e h1 h2 => ?_, by decide⟩
    have : e ≤ 43 := h2
    interval_cases e <;> decide
  exact ⟨hlay, by decide, by decide, htail,
    build_layout memberThenGarbage {} [36] 36 (by decide) hlay (by decide) (by decide) htail⟩

/-! ### A data size that does not fit a `long long` -/

/-- Two members, 36 and 2601797471609271 bytes long. The first records 10000 data bytes; the
second's trailer records the data size `2^64 - 5000`, which `check_consistency` admits for
that member size; the bytes between its header and trailer are zero. -/
def twoMembersBig : InFile :=
  let member_size := 2601797471609271
  let first : List UInt8 := [0x4C, 0x5A, 0x49, 0x50, 1, 12] ++ List.replicate 10 0 ++
    [1, 0, 0, 0, 0x10, 0x27, 0, 0, 0, 0, 0, 0, 36, 0, 0, 0, 0, 0, 0, 0]
  let trailer : List UInt8 := [1, 0, 0, 0, 0x78, 0xEC, 0xFF, 0xFF, 0xFF, 0xFF, 0xFF, 0xFF,
    0xB7, 0xA1, 0x12, 0x2E, 0x52, 0x3E, 0x09, 0x00]
  ⟨36 + member_size, fun i =>
    if i < 36 then first.getD i 0
    else if i < 42 then [0x4C, 0x5A, 0x49, 0x50, 1, 12].getD (i - 36) 0
    else if 36 + member_size - 20 ≤ i then trailer.getD (i - (36 + member_size - 20)) 0
    else 0⟩

/-- On `twoMembersBig` the constructor succeeds, but the second member's data block has the
negative size -5000 where its trailer records `2^64 - 5000`, and the exact data total
`10000 + 2^64 - 5000` exceeds `2^63 - 1` without the "Data in input file is too long"
error. -/
theorem build_twoMembersBig :
    (twoMembersBig.trailer (twoMembersBig.size - 20)).dataSize = 2 ^ 64 - 5000 ∧
      (build twoMembersBig {}).retval = 0 ∧
      (build twoMembersBig {}).member_vector.map (·.dblock) = [⟨0, 10000⟩, ⟨10000, -5000⟩] := by
  have hlay : LaidOut twoMembersBig 0 [36, 2601797471609271] twoMembersBig.size := by
    simp only [LaidOut]; decide
  have hloop := mainLoop_layout twoMembersBig {} _ _ (by decide) hlay (by decide) (.inl rfl)
  rw [build_of_mainLoop twoMembersBig {} (by decide) (by decide) hlay.2.1 _ _ hloop]
  decide

end LzipIndex
end Lzip
