import Lzip.Basic

/-! `make_dirs` (list.cc), which `open_outstream` calls to create the directories an output
file name passes through: it cuts the last component and the slashes before it, then walks the
rest component by component, and for each prefix that ends a component checks with `stat`
that it is a directory or creates it with `mkdir`. The file system is an oracle answering for
each path. The walk checks exactly the ancestor directories of the name, shortest first, and
stops at the first one that fails. -/
namespace Lzip
namespace Dirs

/-- `while( i > 0 && p( name[i-1] ) ) --i;` -/
def skipBack (p : Char → Bool) (name : List Char) : Nat → Nat
  | 0 => 0
  | i + 1 => if p (name.getD i ' ') then skipBack p name i else i + 1

/-- `dirsize`: the size of the name without its last component and the slashes before it. -/
def dirSize (name : List Char) : Nat :=
  skipBack (· = '/') name (skipBack (· ≠ '/') name name.length)

/-- `while( i < dirsize && p( name[i] ) ) ++i;`, at most `fuel` times. -/
def skipFwd (p : Char → Bool) (name : List Char) (dirsize : Nat) : Nat → Nat → Nat
  | 0, i => i
  | fuel + 1, i => if i < dirsize ∧ p (name.getD i ' ') then skipFwd p name dirsize fuel (i + 1) else i

/-- What the file system answers for a path: `stat` fails (`none`), or finds a directory
(`some true`) or another file (`some false`); `mkdir` succeeds or fails with `EEXIST` (`true`),
or fails otherwise. -/
structure FsAnswer where
  stat : Option Bool
  mkdir : Bool

/-- The body of `if( first < i )` for the prefix `dir`: whether the walk goes on. -/
def checkDir (fs : List Char → FsAnswer) (dir : List Char) : Bool :=
  match (fs dir).stat with
  | some is_dir => is_dir
  | none => (fs dir).mkdir

/-- `for( i = 0; i < dirsize; )` from `i`, at most `fuel` passes: the prefixes checked, and
whether the walk ends without a failure. -/
def dirLoop (fs : List Char → FsAnswer) (name : List Char) (dirsize : Nat) :
    Nat → Nat → List (List Char) × Bool
  | 0, _ => ([], true)
  | fuel + 1, i =>
    if i < dirsize then
      let first := skipFwd (· = '/') name dirsize dirsize i
      let i := skipFwd (· ≠ '/') name dirsize dirsize first
      if first < i then
        let dir := name.take i
        if checkDir fs dir then
          let (checked, ok) := dirLoop fs name dirsize fuel i
          (dir :: checked, ok)
        else ([dir], false)
      else dirLoop fs name dirsize fuel i
    else ([], true)

/-- `make_dirs( name )`: each pass of the walk moves past a component, so `dirsize + 1`
passes are enough. -/
def makeDirs (fs : List Char → FsAnswer) (name : List Char) : List (List Char) × Bool :=
  dirLoop fs name (dirSize name) (dirSize name + 1) 0

/-! ### The specification -/

def endsDir (name : List Char) (j : Nat) : Bool :=
  decide (name.getD (j - 1) ' ' ≠ '/' ∧ name.getD j ' ' = '/')

/-- The ancestor directories of `name`: its prefixes that end a directory, shortest first. -/
def ancestors (name : List Char) : List (List Char) :=
  ((List.range' 1 name.length).filter (endsDir name)).map name.take

/-- Checking the paths `ds` in turn until one fails: those checked, and whether none failed. -/
def checkAll (fs : List Char → FsAnswer) : List (List Char) → List (List Char) × Bool
  | [] => ([], true)
  | d :: ds =>
    if checkDir fs d then
      let (checked, ok) := checkAll fs ds
      (d :: checked, ok)
    else ([d], false)

example : ancestors "/usr//lib/x.lz".toList = ["/usr".toList, "/usr//lib".toList] := by decide

/-! ### The two scans -/

theorem skipBack_spec (p : Char → Bool) (name : List Char) (i : Nat) :
    skipBack p name i ≤ i ∧ (∀ m, skipBack p name i ≤ m → m < i → p (name.getD m ' ') = true) ∧
      (skipBack p name i = 0 ∨ p (name.getD (skipBack p name i - 1) ' ') = false) := by
  induction i with
  | zero => exact ⟨le_rfl, fun _ _ h => absurd h (Nat.not_lt_zero _), .inl rfl⟩
  | succ i ih =>
    by_cases hp : p (name.getD i ' ') = true
    · simp only [skipBack, hp, if_true]
      obtain ⟨hle, hall, hend⟩ := ih
      refine ⟨by omega, fun m h1 h2 => ?_, hend⟩
      rcases Nat.lt_succ_iff_lt_or_eq.1 h2 with h | rfl
      · exact hall m h1 h
      · exact hp
    · simp only [skipBack, hp, Bool.false_eq_true, if_false]
      exact ⟨le_rfl, fun m h1 h2 => absurd h2 (by omega), .inr (by simpa using hp)⟩

theorem skipFwd_spec (p : Char → Bool) (name : List Char) (D : Nat) (fuel : Nat) :
    ∀ i, D - i ≤ fuel →
      i ≤ skipFwd p name D fuel i ∧ skipFwd p name D fuel i ≤ max i D ∧
      (∀ m, i ≤ m → m < skipFwd p name D fuel i → m < D ∧ p (name.getD m ' ') = true) ∧
      (D ≤ skipFwd p name D fuel i ∨ p (name.getD (skipFwd p name D fuel i) ' ') = false) := by
  induction fuel with
  | zero => intro i h; simp only [skipFwd]; exact ⟨le_rfl, by omega, fun m h1 h2 => by omega, .inl (by omega)⟩
  | succ fuel ih =>
    intro i h
    by_cases hc : i < D ∧ p (name.getD i ' ') = true
    · simp only [skipFwd, hc, and_self, if_true]
      obtain ⟨hle, hmax, hall, hend⟩ := ih (i + 1) (by omega)
      refine ⟨by omega, by omega, fun m h1 h2 => ?_, hend⟩
      rcases Nat.eq_or_lt_of_le h1 with rfl | h
      · exact hc
      · exact hall m h h2
    · simp only [skipFwd, hc, if_false]
      refine ⟨le_rfl, by omega, fun m h1 h2 => absurd h2 (by omega), ?_⟩
      by_cases hD : D ≤ i
      · exact .inl hD
      · exact .inr (by simpa [Nat.lt_of_not_le hD] using hc)

/-! ### The walk -/

theorem filter_endsDir_next {name : List Char} {i j D : Nat} (hij : i < j) (hjD : j ≤ D)
    (hj : endsDir name j = true) (hnone : ∀ m, i < m → m < j → endsDir name m = false) :
    (List.range' (i + 1) (D - i)).filter (endsDir name) =
      j :: (List.range' (j + 1) (D - j)).filter (endsDir name) := by
  have hsplit : List.range' (i + 1) (D - i) =
      List.range' (i + 1) (j - (i + 1)) ++ j :: List.range' (j + 1) (D - j) := by
    have h := List.range'_append_1 (i + 1) (j - (i + 1)) (D - j + 1)
    rw [show i + 1 + (j - (i + 1)) = j by omega, show D - j + 1 + (j - (i + 1)) = D - i by omega,
      List.range'_succ] at h
    exact h.symm
  rw [hsplit, List.filter_append, List.filter_cons, if_pos hj, List.filter_eq_nil_iff.2, List.nil_append]
  intro m hm
  rw [List.mem_range'_1] at hm
  simp only [hnone m (by omega) (by omega), Bool.false_eq_true, not_false_eq_true]

theorem filter_endsDir_none {name : List Char} {i D : Nat}
    (hslash : ∀ m, i ≤ m → m < D → name.getD m ' ' = '/') :
    (List.range' (i + 1) (D - i)).filter (endsDir name) = [] := by
  refine List.filter_eq_nil_iff.2 fun m hm => ?_
  rw [List.mem_range'_1] at hm
  simp only [endsDir, hslash (m - 1) (by omega) (by omega), ne_eq, not_true_eq_false, false_and,
    decide_False, Bool.false_eq_true, not_false_eq_true]

/-- The run lemma: with a slash at `D` (when `D > 0`), the walk from `i` checks, until one
fails, the prefixes that end a directory at the positions from `i + 1` to `D`. -/
theorem dirLoop_spec (fs : List Char → FsAnswer) (name : List Char) (D : Nat)
    (hD : 0 < D → name.getD D ' ' = '/') (fuel : Nat) :
    ∀ i, D - i < fuel → dirLoop fs name D fuel i =
      checkAll fs (((List.range' (i + 1) (D - i)).filter (endsDir name)).map name.take) := by
  induction fuel with
  | zero => intro i h; omega
  | succ fuel ih =>
    intro i hfuel
    by_cases hi : i < D
    swap
    · simp only [dirLoop, hi, if_false, Nat.sub_eq_zero_of_le (Nat.le_of_not_lt hi),
        List.range'_zero, List.filter_nil, List.map_nil, checkAll]
    simp only [dirLoop, hi, if_true]
    obtain ⟨hf1, hf2, hfall, hfend⟩ := skipFwd_spec (· = '/') name D D i (by omega)
    generalize skipFwd (· = '/') name D D i = first at hf1 hf2 hfall hfend ⊢
    obtain ⟨hj1, hj2, hjall, hjend⟩ := skipFwd_spec (· ≠ '/') name D D first (by omega)
    generalize skipFwd (· ≠ '/') name D D first = j at hj1 hj2 hjall hjend ⊢
    simp only [decide_eq_true_eq, decide_eq_false_iff_not, ne_eq, not_not] at hfall hfend hjall hjend
    by_cases hfj : first < j
    · have hend : endsDir name j = true := by
        simp only [endsDir, decide_eq_true_eq]
        refine ⟨(hjall (j - 1) (by omega) (by omega)).2, ?_⟩
        rcases hjend with h | h
        · rw [show j = D by omega]; exact hD (by omega)
        · exact h
      have hnone : ∀ m, i < m → m < j → endsDir name m = false := fun m h1 h2 => by
        simp only [endsDir, decide_eq_false_iff_not, not_and, not_not]
        intro hm
        by_cases hmf : m ≤ first
        · exact absurd (hfall (m - 1) (by omega) (by omega)).2 hm
        · exact (hjall m (by omega) h2).2
      rw [if_pos hfj, filter_endsDir_next (by omega) (by omega) hend hnone, List.map_cons, checkAll,
        ih j (by omega)]
    · have hfD : first = D := by
        rcases hjend with h | h
        · omega
        · rcases hfend with h' | h'
          · omega
          · exact absurd (show j = first by omega ▸ h) h'
      rw [if_neg hfj, filter_endsDir_none fun m h1 h2 => (hfall m h1 (by omega)).2]
      cases fuel with
      | zero => rfl
      | succ fuel => simp only [dirLoop, show ¬j < D by omega, if_false, List.map_nil, checkAll]

/-- `make_dirs` checks exactly the ancestor directories of the name, shortest first, until
one is a file other than a directory or cannot be created; it returns true when none fails. -/
theorem makeDirs_ancestors (fs : List Char → FsAnswer) (name : List Char) :
    makeDirs fs name = checkAll fs (ancestors name) := by
  have hdir : dirSize name = skipBack (· = '/') name (skipBack (· ≠ '/') name name.length) := rfl
  obtain ⟨he1, heall, heend⟩ := skipBack_spec (· ≠ '/') name name.length
  generalize skipBack (· ≠ '/') name name.length = e at he1 heall heend hdir
  obtain ⟨hd1, hdall, hdend⟩ := skipBack_spec (· = '/') name e
  generalize skipBack (· = '/') name e = D at hd1 hdall hdend hdir
  simp only [decide_eq_true_eq, decide_eq_false_iff_not, ne_eq, not_not] at heall heend hdall hdend
  have hDe : 0 < D → D < e := fun hD => by
    rcases Nat.lt_or_eq_of_le hd1 with h | rfl
    · exact h
    · rcases heend with h | h
      · omega
      · rcases hdend with h' | h'
        · omega
        · exact absurd h h'
  have htail : (List.range' (1 + D) (name.length - D)).filter (endsDir name) = [] := by
    refine List.filter_eq_nil_iff.2 fun j hj => ?_
    rw [List.mem_range'_1] at hj
    simp only [endsDir, decide_eq_true_eq, not_and, not_not, ne_eq]
    intro hj1 hj2
    by_cases hje : j - 1 < e
    · exact hj1 (hdall (j - 1) (by omega) hje)
    · by_cases hjL : j < name.length
      · exact heall j (by omega) hjL hj2
      · rw [List.getD_eq_getElem?_getD, List.getElem?_eq_none (by omega)] at hj2
        simp at hj2
  rw [makeDirs, hdir, dirLoop_spec fs name D (fun hD => hdall D le_rfl (hDe hD)) (D + 1) 0 (by omega),
    ancestors, show name.length = (name.length - D) + D by omega, ← List.range'_append_1,
    List.filter_append, htail, List.append_nil, Nat.sub_zero, Nat.zero_add]

example : makeDirs (fun _ => ⟨none, true⟩) "a//b/c.lz".toList = (["a".toList, "a//b".toList], true) := by
  decide

end Dirs
end Lzip
