import Lzip.Index.SkipTrailing

/-! The constructor `Lzip_index::Lzip_index` (lzip_index.cc): after checking the first
header and the file size it walks the members backwards from the end of the file, each
trailer giving the size of its member, and calls `skip_trailing_data` when the file does
not end in a member. The members are then put in file order and their data positions set
as prefix sums of the data sizes.

The file is seekable (`insize >= 0`); the path for a non-seekable input is not modelled. -/
namespace Lzip
namespace LzipIndex

/-- How a pass of the loop body ends. -/
inductive LoopStep
  -- `continue` at the new `pos`.
  | next (idx : LzipIndex) (pos : Nat)
  -- The loop is left at `pos`, by `break` or by its guard.
  | brk (idx : LzipIndex) (pos : Nat)
  -- `return` from the constructor.
  | ret (idx : LzipIndex)

/-- A bad trailer or header at `pos`: with no member yet `skip_trailing_data` decides
(`continue` or `return`); otherwise `set_num_error( msg, num ); break;`. -/
def badMember (f : InFile) (opts : ClOptions) (idx : LzipIndex) (pos : Nat) (msg : String)
    (num : Nat) : LoopStep :=
  if idx.member_vector = [] then
    let r := skipTrailingData f idx pos opts
    if r.1 then .next r.2.1 r.2.2 else .ret r.2.1
  else .brk (idx.setNumError msg num) pos

/-- One pass of the body of `while( pos >= min_member_size )`. -/
def loopStep (f : InFile) (opts : ClOptions) (idx : LzipIndex) (pos : Nat) : LoopStep :=
  if f.readCount 20 (pos - 20) ≠ 20 then
    .brk (idx.setErrnoError "Error reading member trailer: ") pos
  else
    let trailer := f.trailer (pos - 20)
    let member_size := trailer.memberSize
    if member_size > pos ∨ trailer.checkConsistency = false then
      badMember f opts idx pos "Bad trailer at pos " (pos - 20)
    else if f.readCount 6 (pos - member_size) ≠ 6 then
      .brk (idx.setErrnoError "Error reading member header: ") pos
    else
      let header := f.header (pos - member_size)
      if header.check = false then badMember f opts idx pos "Bad header at pos " (pos - member_size)
      else
        .next (idx.pushMember trailer.dataSize (pos - member_size) member_size
          header.dictionarySize) (pos - member_size)

theorem loopStep_next_lt (f : InFile) (opts : ClOptions) (idx : LzipIndex) (pos : Nat)
    (idx' : LzipIndex) (pos' : Nat)
    (h : loopStep f opts idx pos = .next idx' pos') : pos' < pos := by
  have hskip (msg : String) (num : Nat) (hb : badMember f opts idx pos msg num = .next idx' pos') :
      pos' < pos := by
    unfold badMember at hb
    by_cases h0 : idx.member_vector = []
    · rw [if_pos h0] at hb
      by_cases hr : (skipTrailingData f idx pos opts).1 = true
      · rw [if_pos hr] at hb
        cases hb
        have := skipTrailingData_accept_le f opts pos idx hr
        omega
      · rw [if_neg hr] at hb; cases hb
    · rw [if_neg h0] at hb; cases hb
  rw [loopStep] at h
  by_cases h1 : f.readCount 20 (pos - 20) ≠ 20
  · rw [if_pos h1] at h; cases h
  rw [if_neg h1] at h
  by_cases h2 : (f.trailer (pos - 20)).memberSize > pos ∨
      (f.trailer (pos - 20)).checkConsistency = false
  · rw [if_pos h2] at h; exact hskip _ _ h
  rw [if_neg h2] at h
  by_cases h3 : f.readCount 6 (pos - (f.trailer (pos - 20)).memberSize) ≠ 6
  · rw [if_pos h3] at h; cases h
  rw [if_neg h3] at h
  by_cases h4 : (f.header (pos - (f.trailer (pos - 20)).memberSize)).check = false
  · rw [if_pos h4] at h; exact hskip _ _ h
  rw [if_neg h4] at h
  cases h
  simp only [not_or, not_lt, Bool.not_eq_false] at h2
  have := checkConsistency_memberSize _ h2.2
  omega

theorem loopStep_candidate (f : InFile) (opts : ClOptions) (idx : LzipIndex) (pos : Nat)
    (hc : Candidate f pos) (hsize : pos ≤ f.size) :
    loopStep f opts idx pos = .next (candidateMember f idx pos) (pos - (f.trailer (pos - 20)).memberSize) := by
  obtain ⟨hle, hcons, hhd⟩ := hc
  have h36 := checkConsistency_memberSize _ hcons
  unfold loopStep
  simp only [InFile.readCount, gt_iff_lt, hcons, hhd]
  rw [if_neg (by omega), if_neg (by simp; omega), if_neg (by omega), if_neg (by simp)]
  rfl

theorem loopStep_not_candidate (f : InFile) (opts : ClOptions) (idx : LzipIndex) (pos : Nat)
    (hc : ¬Candidate f pos) (h20 : 20 ≤ pos) (hsize : pos ≤ f.size) :
    ∃ msg num, loopStep f opts idx pos = badMember f opts idx pos msg num := by
  unfold loopStep
  simp only [InFile.readCount]
  rw [if_neg (by omega)]
  split_ifs with h1 h2 h3
  · exact ⟨_, _, rfl⟩
  · simp only [not_or, not_lt, Bool.not_eq_false] at h1
    have := checkConsistency_memberSize _ h1.2
    omega
  · exact ⟨_, _, rfl⟩
  · simp only [not_or, not_lt, Bool.not_eq_false] at h1 h3
    exact absurd ⟨h1.1, h1.2, h3⟩ hc

/-- The loop `while( pos >= min_member_size )` from `pos`, over a body `step` that only
continues at a smaller `pos`. -/
def memberLoop (step : LzipIndex → Nat → LoopStep)
    (hstep : ∀ idx pos idx' pos', step idx pos = .next idx' pos' → pos' < pos)
    (idx : LzipIndex) (pos : Nat) : LoopStep :=
  if pos < minMemberSize then .brk idx pos else
  match h : step idx pos with
  | .next idx' pos' => memberLoop step hstep idx' pos'
  | .brk idx' pos' => .brk idx' pos'
  | .ret idx' => .ret idx'
termination_by pos
decreasing_by exact hstep idx pos idx' pos' h

/-- The constructor's loop. -/
def mainLoop (f : InFile) (opts : ClOptions) : LzipIndex → Nat → LoopStep :=
  memberLoop (loopStep f opts) (loopStep_next_lt f opts)

section MemberLoop

variable (step : LzipIndex → Nat → LoopStep)
  (hstep : ∀ idx pos idx' pos', step idx pos = .next idx' pos' → pos' < pos)

theorem memberLoop_guard (idx : LzipIndex) (pos : Nat) (h36 : pos < minMemberSize) :
    memberLoop step hstep idx pos = .brk idx pos := by
  rw [memberLoop, if_pos h36]

theorem memberLoop_exit (idx : LzipIndex) (pos : Nat) (h36 : ¬pos < minMemberSize)
    (h : ∀ idx' pos', step idx pos ≠ .next idx' pos') :
    memberLoop step hstep idx pos = step idx pos := by
  rw [memberLoop, if_neg h36]
  split <;> simp_all

theorem memberLoop_next (idx idx' : LzipIndex) (pos pos' : Nat) (h36 : ¬pos < minMemberSize)
    (h : step idx pos = .next idx' pos') :
    memberLoop step hstep idx pos = memberLoop step hstep idx' pos' := by
  rw [memberLoop, if_neg h36]
  split <;> simp_all

end MemberLoop

theorem mainLoop_guard (f : InFile) (opts : ClOptions) (idx : LzipIndex) (pos : Nat)
    (h36 : pos < 36) : mainLoop f opts idx pos = .brk idx pos :=
  memberLoop_guard _ _ _ _ h36

theorem mainLoop_next (f : InFile) (opts : ClOptions) (idx idx' : LzipIndex) (pos pos' : Nat)
    (h36 : 36 ≤ pos) (h : loopStep f opts idx pos = .next idx' pos') :
    mainLoop f opts idx pos = mainLoop f opts idx' pos' :=
  memberLoop_next _ _ _ _ _ _ (by simp only [minMemberSize_eq]; omega) h

/-- A block is accepted by the prefix-sum loop when its end is in `[0, INT64_MAX]`. The end
is taken over exact integers, so `end > INT64_MAX` stands for the wrap to a negative
`long long` that `end < 0` catches in the source. -/
def endOk (b : Block) : Bool := decide (0 ≤ b.end ∧ b.end ≤ int64Max)

/-- The loop `for( i = 0; ; ++i )` over the members in file order, from member `m`, whose
data position is already set: each next member's data block starts at the end of the one
before. `none` when some end is out of range. -/
def setDataPositions (m : Member) : List Member → Option (List Member)
  | [] => if endOk m.dblock then some [m] else none
  | m2 :: ms =>
    if endOk m.dblock then
      (setDataPositions { m2 with dblock := { m2.dblock with pos := m.dblock.end } } ms).map (m :: ·)
    else none

/-- After the loop: `if( pos != 0 || member_vector.empty() || retval_ != 0 )` clears the
members; otherwise they are reversed into file order and get their data positions. -/
def finish (idx : LzipIndex) (pos : Nat) : LzipIndex :=
  if pos ≠ 0 ∨ idx.member_vector = [] ∨ idx.retval ≠ 0 then
    if idx.retval = 0 then
      { idx with member_vector := [], error := "Can't create file index.", retval := 2 }
    else { idx with member_vector := [] }
  else
    match idx.member_vector.reverse with
    | [] => idx
    | m :: ms =>
      match setDataPositions m ms with
      | some v => { idx with member_vector := v }
      | none =>
        { idx with
          member_vector := []
          error := "Data in input file is too long (2^63 bytes or more)."
          retval := 2 }

/-- `Lzip_index( infd, cl_opts )` on a seekable file. -/
def build (f : InFile) (opts : ClOptions) : LzipIndex :=
  let idx : LzipIndex := ⟨[], "", f.size, 0, 0⟩
  if 6 ≤ f.size ∧ f.readCount 6 0 ≠ 6 then idx.setErrnoError "Error reading member header: "
  else if 6 ≤ f.size ∧ (idx.checkHeader (f.header 0)).1 = false then (idx.checkHeader (f.header 0)).2
  else if f.size < minMemberSize then
    { idx with error := "Input file is truncated.", retval := 2 }
  else if (f.size : Int) > int64Max then
    { idx with error := "Input file is too long (2^63 bytes or more).", retval := 2 }
  else
    match mainLoop f opts idx f.size with
    | .ret idx' => idx'
    | .next idx' pos | .brk idx' pos => finish idx' pos

/-! ### What `retval() == 0` promises -/

/-- The member `m` sits at byte `p` of the file: its block starts there and is at least 36
bytes long, the 6 bytes at `p` pass `check()` with the member's dictionary size, and the 20
bytes ending at the block's end pass `check_consistency` and record the block's size. -/
def GoodMember (f : InFile) (m : Member) (p : Nat) : Prop :=
  m.mblock.pos = p ∧ 36 ≤ m.mblock.size ∧
    (f.header p).check = true ∧ (f.header p).dictionarySize = m.dictionary_size ∧
    (f.trailer (p + m.mblock.size.toNat - 20)).checkConsistency = true ∧
    ((f.trailer (p + m.mblock.size.toNat - 20)).memberSize : Int) = m.mblock.size

/-- The member blocks of `ms` tile the bytes `[p, q)` of the file, each one starting where
the one before ends. -/
def Tiles (f : InFile) : Nat → List Member → Nat → Prop
  | p, [], q => p = q
  | p, m :: ms, q => GoodMember f m p ∧ Tiles f (p + m.mblock.size.toNat) ms q

/-- What an index with `retval() == 0` promises: its members tile a prefix `[0, q)` of the
file, `dictionary_size()` is their largest dictionary size, and the bytes after `q` passed
as trailing data. -/
def Sound (f : InFile) (opts : ClOptions) (idx : LzipIndex) : Prop :=
  ∃ q ≤ f.size, Tiles f 0 idx.member_vector q ∧
    idx.dictionary_size ∈ idx.member_vector.map (·.dictionary_size) ∧
    (∀ m ∈ idx.member_vector, m.dictionary_size ≤ idx.dictionary_size) ∧
    (q < f.size → TrailingOk opts (f.header q) (f.size - q))

theorem Tiles.le {f : InFile} {p q : Nat} {ms : List Member} (h : Tiles f p ms q) : p ≤ q := by
  induction ms generalizing p with
  | nil => exact Nat.le_of_eq h
  | cons m ms ih => exact Nat.le_trans (Nat.le_add_right _ _) (ih h.2)

theorem Tiles.congr {f : InFile} {p q : Nat} {ms ms' : List Member}
    (he : ms.map (fun m => (m.mblock, m.dictionary_size)) =
      ms'.map (fun m => (m.mblock, m.dictionary_size)))
    (h : Tiles f p ms q) : Tiles f p ms' q := by
  induction ms generalizing p ms' with
  | nil => cases ms' <;> simp_all
  | cons m ms ih =>
    cases ms' with
    | nil => simp at he
    | cons m' ms' =>
      simp only [List.map_cons, List.cons.injEq, Prod.mk.injEq] at he
      obtain ⟨⟨hb, hd⟩, hrest⟩ := he
      obtain ⟨hg, ht⟩ := h
      refine ⟨?_, ?_⟩
      · simpa only [GoodMember, hb, hd] using hg
      · rw [← hb]; exact ih hrest ht

structure Stacked (f : InFile) (opts : ClOptions) (idx : LzipIndex) (pos : Nat) : Prop where
  retval_eq : idx.retval = 0
  dict_le : ∀ m ∈ idx.member_vector, m.dictionary_size ≤ idx.dictionary_size
  dict_mem : idx.member_vector = [] ∧ idx.dictionary_size = 0 ∨
    idx.dictionary_size ∈ idx.member_vector.map (·.dictionary_size)
  tiles : ∃ q ≤ f.size, Tiles f pos idx.member_vector.reverse q ∧
    (q < f.size → TrailingOk opts (f.header q) (f.size - q))

structure LoopInv (f : InFile) (opts : ClOptions) (idx : LzipIndex) (pos : Nat)
    extends Stacked f opts idx pos : Prop where
  start : idx.member_vector = [] → pos = f.size

def StepOk (f : InFile) (opts : ClOptions) : LoopStep → Prop
  | .next idx pos => LoopInv f opts idx pos
  | .brk idx pos => idx.retval ≠ 0 ∨ LoopInv f opts idx pos
  | .ret idx => idx.retval ≠ 0 ∧ idx.member_vector = []

section Sound

variable {f : InFile} {opts : ClOptions}

theorem Stacked.candidate {idx : LzipIndex} {e : Nat} (hf : f.size < 2 ^ 63)
    (hs : Stacked f opts idx e) (hc : Candidate f e) :
    LoopInv f opts (candidateMember f idx e) (e - (f.trailer (e - 20)).memberSize) := by
  obtain ⟨hle, hcons, hhd⟩ := hc
  obtain ⟨q, hq, ht, htr⟩ := hs.tiles
  have he := ht.le
  have h36 := checkConsistency_memberSize _ hcons
  generalize hms : (f.trailer (e - 20)).memberSize = ms at *
  have hconv : ∀ x, x ≤ e → toInt64 x = x := fun x hx => toInt64_of_lt (by omega)
  have hgood : GoodMember f (Member.mk' 0 (f.trailer (e - 20)).dataSize (e - ms) ms
      (f.header (e - ms)).dictionarySize) (e - ms) := by
    simp only [GoodMember, Member.mk', hconv _ hle, hconv (e - ms) (by omega), Int.toNat_ofNat,
      show e - ms + ms - 20 = e - 20 by omega, hhd, hcons, hms, true_and, and_true]
    omega
  refine ⟨⟨hs.retval_eq, ?_, ?_, q, hq, ?_, htr⟩, by simp [candidateMember]⟩
  · simp only [candidateMember, hms, pushMember_member_vector, pushMember_dictionary_size,
      List.mem_append, List.mem_singleton]
    rintro m (hm | rfl)
    · exact le_max_of_le_left (hs.dict_le m hm)
    · exact le_max_right _ _
  · simp only [candidateMember, hms, pushMember_member_vector, pushMember_dictionary_size,
      List.map_append, List.mem_append, List.map_cons, List.map_nil, List.mem_singleton]
    right
    rcases hs.dict_mem with ⟨-, h0⟩ | hm
    · exact .inr (by rw [h0, Nat.zero_max]; rfl)
    · rcases max_choice idx.dictionary_size (f.header (e - ms)).dictionarySize with h | h <;>
        rw [h]
      · exact .inl hm
      · exact .inr rfl
  · simp only [candidateMember, hms, pushMember_member_vector, List.reverse_append,
      List.reverse_singleton, List.singleton_append, Tiles]
    refine ⟨hgood, ?_⟩
    simpa only [Member.mk', hconv _ hle, Int.toNat_ofNat, show e - ms + ms = e by omega] using ht

theorem loopInv_start : LoopInv f opts ⟨[], "", f.size, 0, 0⟩ f.size :=
  ⟨⟨rfl, by simp, .inl ⟨rfl, rfl⟩, f.size, le_rfl, rfl, fun h => absurd h (Nat.lt_irrefl _)⟩,
    fun _ => rfl⟩

theorem badMember_spec (hf : f.size < 2 ^ 63) {idx : LzipIndex} {pos : Nat}
    (hinv : LoopInv f opts idx pos) (h36 : 36 ≤ pos) (msg : String) (num : Nat) :
    StepOk f opts (badMember f opts idx pos msg num) := by
  unfold badMember
  split_ifs with he
  · have hpos := hinv.start he
    dsimp only
    rw [skipTrailingData_plain f opts pos idx h36 (by omega) (by omega)]
    cases hr : (plainSearch f opts pos idx pos).1
    · obtain ⟨hret, hmv⟩ := plainSearch_false f opts pos idx pos hr
      simp [StepOk, hret, hmv, he]
    · obtain ⟨e, hle, -, hc, hok, heq⟩ := plainSearch_true f opts pos idx pos hr
      rw [heq]
      have hs : Stacked f opts idx e := by
        refine ⟨hinv.retval_eq, hinv.dict_le, hinv.dict_mem, e, by omega, ?_, fun _ => ?_⟩
        · simp only [he, List.reverse_nil, Tiles]
        · rwa [← hpos]
      exact hs.candidate hf hc
  · exact .inl (by simp)

theorem loopStep_spec (hf : f.size < 2 ^ 63) {idx : LzipIndex} {pos : Nat}
    (hinv : LoopInv f opts idx pos) (h36 : 36 ≤ pos) : StepOk f opts (loopStep f opts idx pos) := by
  obtain ⟨q, hq, ht, -⟩ := hinv.tiles
  have hsize : pos ≤ f.size := ht.le.trans hq
  by_cases hc : Candidate f pos
  · rw [loopStep_candidate f opts idx pos hc hsize]
    exact hinv.toStacked.candidate hf hc
  · obtain ⟨msg, num, h⟩ := loopStep_not_candidate f opts idx pos hc (by omega) hsize
    rw [h]
    exact badMember_spec hf hinv h36 _ _

/-- The run lemma: the loop ends in `break` or `return` with `StepOk`. -/
theorem mainLoop_spec (hf : f.size < 2 ^ 63) (idx : LzipIndex) (pos : Nat)
    (hinv : LoopInv f opts idx pos) : StepOk f opts (mainLoop f opts idx pos) := by
  unfold mainLoop
  induction idx, pos using memberLoop.induct (loopStep f opts) (loopStep_next_lt f opts) with
  | case1 idx pos h36 => rw [memberLoop_guard _ _ _ _ h36]; exact .inr hinv
  | case2 idx pos h36 idx' pos' h ih =>
    rw [memberLoop_next _ _ _ _ _ _ h36 h]
    have := loopStep_spec hf hinv (by simpa using h36)
    rw [h] at this
    exact ih this
  | case3 idx pos h36 idx' pos' h =>
    rw [memberLoop_exit _ _ _ _ h36 (by simp [h])]
    exact loopStep_spec hf hinv (by simpa using h36)
  | case4 idx pos h36 idx' h =>
    rw [memberLoop_exit _ _ _ _ h36 (by simp [h])]
    exact loopStep_spec hf hinv (by simpa using h36)

theorem setDataPositions_blocks (m : Member) (ms v : List Member)
    (h : setDataPositions m ms = some v) :
    v.map (fun m => (m.mblock, m.dictionary_size)) =
      (m :: ms).map (fun m => (m.mblock, m.dictionary_size)) := by
  induction m, ms using setDataPositions.induct generalizing v with
  | case1 m hok => simp_all [setDataPositions]
  | case2 m hok => simp_all [setDataPositions]
  | case3 m m2 ms hok ih =>
    simp only [setDataPositions, hok, if_true, Option.map_eq_some'] at h
    obtain ⟨v', hv', rfl⟩ := h
    simpa using ih v' hv'
  | case4 m m2 ms hok => simp_all [setDataPositions]

theorem finish_spec {idx : LzipIndex} {pos : Nat} (h : idx.retval ≠ 0 ∨ LoopInv f opts idx pos) :
    ((finish idx pos).retval = 0 ↔ 1 ≤ (finish idx pos).members) ∧
      ((finish idx pos).retval = 0 → Sound f opts (finish idx pos)) := by
  unfold finish
  split_ifs with hbad hret
  · simp [members]
  · simp [members, hret]
  simp only [not_or, not_not] at hbad
  obtain ⟨rfl, hne, hret⟩ := hbad
  have hinv : LoopInv f opts idx 0 := h.resolve_left (by simp [hret])
  obtain ⟨q, hq, ht, htr⟩ := hinv.tiles
  have hmem (x : Member) : x ∈ idx.member_vector.reverse ↔ x ∈ idx.member_vector := List.mem_reverse
  have hdm := hinv.dict_mem.resolve_left (by simp [hne])
  generalize hr : idx.member_vector.reverse = l at ht hmem
  match l, hr with
  | [], hr => simp_all
  | m :: ms, hr =>
    dsimp only
    cases hv : setDataPositions m ms with
    | none => simp [members]
    | some v =>
      have hb := setDataPositions_blocks m ms v hv
      have hd : ∀ x, x ∈ v.map (·.dictionary_size) ↔ x ∈ idx.member_vector.map (·.dictionary_size) := by
        intro x
        have := congrArg (List.map Prod.snd) hb
        simp only [List.map_map, Function.comp_def] at this
        rw [this, ← hr]
        simp
      have hlen : v.length = ms.length + 1 := by simpa using congrArg List.length hb
      refine ⟨by simp [members, hret, hlen],
        fun _ => ⟨q, hq, ht.congr hb.symm, (hd _).2 hdm, fun x hx => ?_, htr⟩⟩
      obtain ⟨y, hy, hxy⟩ : ∃ y ∈ idx.member_vector, y.dictionary_size = x.dictionary_size := by
        have := (hd x.dictionary_size).1 (List.mem_map_of_mem _ hx)
        simpa using this
      simpa [hxy] using hinv.dict_le y hy

end Sound

/-- After the constructor, `retval() == 0` exactly when there is a member, so every error
path leaves the member list empty; and an index with `retval() == 0` is sound: its member
blocks tile a prefix of the file from position 0, each starting with a header that passes
`check()` with the member's dictionary size and ending with a trailer that passes
`check_consistency` and records the block's size; `dictionary_size()` is the largest of
the members' dictionary sizes; and the bytes after the last member, if any, passed as
trailing data. -/
theorem build_sound (f : InFile) (opts : ClOptions) :
    ((build f opts).retval = 0 ↔ 1 ≤ (build f opts).members) ∧
      ((build f opts).retval = 0 → Sound f opts (build f opts)) := by
  unfold build
  dsimp only
  split_ifs with h1 h2 h3 h4
  · simp [members]
  · have := checkHeader_false ⟨[], "", f.size, 0, 0⟩ (f.header 0) (by simpa using h2.2)
    simp [members, this.1, this.2]
  · simp [members]
  · simp [members]
  have hf : f.size < 2 ^ 63 := by simp only [int64Max, gt_iff_lt, not_lt] at h4; omega
  have hloop := mainLoop_spec hf _ _ (@loopInv_start f opts)
  generalize mainLoop f opts ⟨[], "", f.size, 0, 0⟩ f.size = r at hloop
  cases r with
  | ret idx => simp_all [StepOk, members]
  | next idx pos => exact finish_spec (.inr hloop)
  | brk idx pos => exact finish_spec hloop

end LzipIndex
end Lzip
