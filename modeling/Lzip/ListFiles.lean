import Lzip.Index.Build
import Lzip.FileLoop

/-! `list_files` (list.cc), the `--list` mode of `main`: for each input file, standard input
counted once, it opens the file, builds its `Lzip_index`, and prints a line about it; it
returns the largest status of the files, raised to 1 when writing to standard output fails.
The system's answers are an oracle, one record per input file. The lines it prints and the
totals are left out; only whether standard output failed is kept.

The result: `list_files` returns 0 exactly when every file it reads is opened, indexed without
error and, unless it is standard input, not a multimember file with an empty member, and
standard output never fails. It is proved from a step lemma per file and a run lemma over the
loop. -/
namespace Lzip
namespace ListFiles

open FileLoop LzipIndex

/-- What the system answers for one input file of `list_files`. -/
structure ListAnswers where
  -- `open` returns a descriptor for the input
  open_ok : Bool
  -- what `fstat` reports of the input, `none` when it fails
  fstat : Option FileType
  -- the input the descriptor reads
  file : InFile
  -- `std::ferror( stdout )` after the lines about this file
  stdout_error : Bool

/-- Modelled from the spec: `multi_empty()`, set when a file of more than one member holds an
empty one (lzip_index.h in src/ does not declare it). -/
def multiEmpty (idx : LzipIndex) : Bool :=
  decide (1 < idx.members) && idx.member_vector.any fun m => m.dblock.size == 0

structure ListVars where
  retval : Nat
  stdin_used : Bool

/-- One pass of `for( unsigned i = 0; i < filenames.size(); ++i )` on the file `name`: the
variables after it, and whether it ends in `break`. -/
def listStep (cl_opts : ClOptions) (verbosity : Int) (v : ListVars) (name : List Char)
    (a : ListAnswers) : ListVars × Bool :=
  let from_stdin := decide (name = "-".toList)
  if from_stdin ∧ v.stdin_used then (v, false)
  else
    let v := if from_stdin then { v with stdin_used := true } else v
    if ¬(from_stdin ∨ openInstream a.open_ok a.fstat false true) then
      ({ v with retval := setRetval v.retval 1 }, false)
    else
      let lzip_index := build a.file cl_opts
      if lzip_index.retval ≠ 0 then ({ v with retval := setRetval v.retval lzip_index.retval }, false)
      else
        let multi_empty := !from_stdin && multiEmpty lzip_index
        let v := if multi_empty then { v with retval := setRetval v.retval 2 } else v
        if verbosity < 0 then (v, false) else (v, a.stdout_error)

/-- The loop over the files from the `i`-th on. -/
def listLoop (cl_opts : ClOptions) (verbosity : Int) (env : Nat → ListAnswers) :
    Nat → List (List Char) → ListVars → ListVars × Bool
  | _, [], v => (v, false)
  | i, name :: names, v =>
    match listStep cl_opts verbosity v name (env i) with
    | (v', true) => (v', true)
    | (v', false) => listLoop cl_opts verbosity env (i + 1) names v'

/-- `list_files( filenames, cl_opts )`: its return value. `stdout_ok` is
`!std::ferror( stdout ) && std::fclose( stdout ) == 0` after the totals; after a `break` the
error flag of standard output is still set. -/
def listFiles (filenames : List (List Char)) (cl_opts : ClOptions) (verbosity : Int)
    (env : Nat → ListAnswers) (stdout_ok : Bool) : Nat :=
  let (v, broke) := listLoop cl_opts verbosity env 0 filenames ⟨0, false⟩
  if 0 ≤ verbosity ∧ (broke = true ∨ stdout_ok = false) then setRetval v.retval 1 else v.retval

/-- A file `list_files` lists without raising its status: opened (standard input needs no
open), indexed with `retval() == 0`, and, unless it is standard input, not `multi_empty`. -/
def Listed (cl_opts : ClOptions) (name : List Char) (a : ListAnswers) : Prop :=
  (name = "-".toList ∨ openInstream a.open_ok a.fstat false true = true) ∧
    (build a.file cl_opts).retval = 0 ∧
    (name ≠ "-".toList → multiEmpty (build a.file cl_opts) = false)

instance (cl_opts : ClOptions) (name : List Char) (a : ListAnswers) :
    Decidable (Listed cl_opts name a) :=
  inferInstanceAs (Decidable (_ ∧ _ ∧ _))

theorem forall_get?_cons {α : Type} {a : α} {l : List α} {P : Nat → α → Prop} :
    (∀ k x, (a :: l).get? k = some x → P k x) ↔ P 0 a ∧ ∀ k x, l.get? k = some x → P (k + 1) x :=
  ⟨fun h => ⟨h 0 a rfl, fun k x hk => h (k + 1) x hk⟩, fun ⟨h0, h⟩ k x hk => by
    cases k with
    | zero => cases hk; exact h0
    | succ k => exact h k x hk⟩

section Loop

variable {cl_opts : ClOptions} {verbosity : Int}

theorem listStep_cases (v : ListVars) (name : List Char) (a : ListAnswers) :
    (name = "-".toList ∧ v.stdin_used = true ∧ listStep cl_opts verbosity v name a = (v, false)) ∨
    (¬(name = "-".toList ∧ v.stdin_used = true) ∧ ∃ r brk,
      listStep cl_opts verbosity v name a = (⟨r, v.stdin_used || decide (name = "-".toList)⟩, brk) ∧
      v.retval ≤ r ∧ (brk = true → 0 ≤ verbosity) ∧
      (r = 0 ∧ (0 ≤ verbosity → brk = false) ↔
        v.retval = 0 ∧ Listed cl_opts name a ∧ (0 ≤ verbosity → a.stdout_error = false))) := by
  unfold listStep Listed
  generalize build a.file cl_opts = idx
  generalize openInstream a.open_ok a.fstat false true = o
  by_cases hn : name = "-".toList
  · by_cases hu : v.stdin_used = true
    · exact .inl ⟨hn, hu, by simp [hn, hu]⟩
    · refine .inr ⟨fun h => hu h.2, ?_⟩
      simp only [hn, decide_True, hu, Bool.or_true, true_and, Bool.false_eq_true, if_false,
        if_true, true_or, not_true, Bool.not_true, Bool.false_and, not_false_eq_true,
        forall_const, true_and]
      split_ifs <;> refine ⟨_, _, rfl, ?_, ?_, ?_⟩ <;> simp_all [setRetval_eq_max]
  · refine .inr ⟨fun h => hn h.1, ?_⟩
    simp only [hn, decide_False, Bool.or_false, false_and, Bool.false_eq_true, if_false,
      false_or, Bool.not_false, Bool.true_and, ne_eq, not_false_eq_true, forall_const]
    split_ifs <;> refine ⟨_, _, rfl, ?_, ?_, ?_⟩ <;> simp_all [setRetval_eq_max]

theorem listStep_stdin_used (v : ListVars) (name : List Char) (a : ListAnswers) :
    (listStep cl_opts verbosity v name a).1.stdin_used =
      (v.stdin_used || decide (name = "-".toList)) := by
  rcases @listStep_cases cl_opts verbosity v name a with ⟨-, hu, h⟩ | ⟨-, r, brk, h, -⟩
  · rw [h, hu, Bool.true_or]
  · rw [h]

theorem listStep_retval_le (v : ListVars) (name : List Char) (a : ListAnswers) :
    v.retval ≤ (listStep cl_opts verbosity v name a).1.retval := by
  rcases @listStep_cases cl_opts verbosity v name a with ⟨-, -, h⟩ | ⟨-, r, brk, h, hr, -⟩
  · rw [h]
  · rwa [h]

theorem listStep_break {v : ListVars} {name : List Char} {a : ListAnswers}
    (h : (listStep cl_opts verbosity v name a).2 = true) : 0 ≤ verbosity := by
  rcases @listStep_cases cl_opts verbosity v name a with ⟨-, -, hs⟩ | ⟨-, r, brk, hs, -, hb, -⟩
  · rw [hs] at h; cases h
  · rw [hs] at h; exact hb h

/-- The step lemma: a pass keeps `retval` at 0 and does not `break` exactly when `retval` was
0 and the file is a second standard input, or is listed with no error on standard output. -/
theorem listStep_ok (v : ListVars) (name : List Char) (a : ListAnswers) :
    ((listStep cl_opts verbosity v name a).1.retval = 0 ∧
      (0 ≤ verbosity → (listStep cl_opts verbosity v name a).2 = false)) ↔
    v.retval = 0 ∧ (¬(name = "-".toList ∧ v.stdin_used = true) →
      Listed cl_opts name a ∧ (0 ≤ verbosity → a.stdout_error = false)) := by
  rcases @listStep_cases cl_opts verbosity v name a with ⟨hn, hu, h⟩ | ⟨hs, r, brk, h, -, -, hok⟩
  · rw [h]; simp [hn, hu]
  · rw [h]
    simp only [hs, not_false_eq_true, forall_const]
    exact hok

theorem listLoop_retval_le (env : Nat → ListAnswers) :
    ∀ (names : List (List Char)) (i : Nat) (v : ListVars),
    v.retval ≤ (listLoop cl_opts verbosity env i names v).1.retval
  | [], _, _ => le_rfl
  | name :: names, i, v => by
    have hs := @listStep_retval_le cl_opts verbosity v name (env i)
    simp only [listLoop]
    generalize listStep cl_opts verbosity v name (env i) = r at hs ⊢
    obtain ⟨v', _ | _⟩ := r
    · exact le_trans hs (listLoop_retval_le env names (i + 1) v')
    · exact hs

/-- The run lemma: the loop from the `i`-th file ends with `retval` 0 and no `break` exactly
when `retval` was 0 and every file it reads, all but the repeats of standard input, is listed
with no error on standard output. -/
theorem listLoop_ok (env : Nat → ListAnswers) :
    ∀ (names : List (List Char)) (i : Nat) (v : ListVars),
    ((listLoop cl_opts verbosity env i names v).1.retval = 0 ∧
      (0 ≤ verbosity → (listLoop cl_opts verbosity env i names v).2 = false)) ↔
    v.retval = 0 ∧ ∀ k name, names.get? k = some name →
      ¬(name = "-".toList ∧ (v.stdin_used = true ∨ "-".toList ∈ names.take k)) →
      Listed cl_opts name (env (i + k)) ∧ (0 ≤ verbosity → (env (i + k)).stdout_error = false)
  | [], _, v => by simp [listLoop]
  | name :: names, i, v => by
    have hs := @listStep_ok cl_opts verbosity v name (env i)
    have hu := @listStep_stdin_used cl_opts verbosity v name (env i)
    have hb := @listStep_break cl_opts verbosity v name (env i)
    simp only [forall_get?_cons, List.take_zero, List.not_mem_nil, or_false, Nat.add_zero,
      List.take_succ_cons, List.mem_cons, listLoop]
    generalize listStep cl_opts verbosity v name (env i) = r at hs hu hb ⊢
    obtain ⟨v', b⟩ := r
    cases b with
    | true =>
      have h0 := hb rfl
      simp only [h0, forall_const, Bool.true_eq_false, and_false, false_iff] at hs ⊢
      exact fun ⟨hv, hname, _⟩ => hs ⟨hv, hname⟩
    | false =>
      /- the files after the first: a standard input among them is a repeat when it was
      one before the pass, or the first file was standard input -/
      have hu' : v'.stdin_used = true ↔ v.stdin_used = true ∨ "-".toList = name := by
        simp only at hu; rw [hu, Bool.or_eq_true, decide_eq_true_eq, @eq_comm _ name]
      rw [listLoop_ok env names (i + 1) v']
      simp only [implies_true, and_true] at hs
      simp only [hu', or_assoc, Nat.add_assoc, Nat.add_comm 1]
      rw [hs, and_assoc]

end Loop

/-- `list_files` returns 0 exactly when every file it reads, all but the repeats of standard
input, is opened, indexed with `retval() == 0` and, unless it is standard input, not
`multi_empty`, and, when it prints (`verbosity >= 0`), standard output never fails. -/
theorem listFiles_eq_zero (filenames : List (List Char)) (cl_opts : ClOptions) (verbosity : Int)
    (env : Nat → ListAnswers) (stdout_ok : Bool) :
    listFiles filenames cl_opts verbosity env stdout_ok = 0 ↔
      (∀ k name, filenames.get? k = some name →
        ¬(name = "-".toList ∧ "-".toList ∈ filenames.take k) →
        Listed cl_opts name (env k) ∧ (0 ≤ verbosity → (env k).stdout_error = false)) ∧
      (0 ≤ verbosity → stdout_ok = true) := by
  have h := @listLoop_ok cl_opts verbosity env filenames 0 ⟨0, false⟩
  simp only [Nat.zero_add, Bool.false_eq_true, false_or, true_and] at h
  unfold listFiles
  generalize listLoop cl_opts verbosity env 0 filenames ⟨0, false⟩ = r at h ⊢
  obtain ⟨v, broke⟩ := r
  rw [← h]
  by_cases hv : 0 ≤ verbosity
  · cases broke <;> cases stdout_ok <;> simp [hv, setRetval_eq_max]
  · simp [hv]

end ListFiles
end Lzip
