import Lzip.CommandLine
import Lzip.Names

/-! The part of `main` (list.cc) after the options: the list of input files, the settings it
derives from the options (`to_file`, `one_to_one`), and the loop over the input files, which
opens each input (`open_instream`) and its output, runs `compress` or `decompress`, closes the
output, and removes the input; then the close of the `--output` file or of standard output.
The system's answers are an oracle, one record per input file: whether each `open`, `fstat`,
`isatty` and `close` succeeds and what it reports, what `compress` or `decompress` returns, and
the answers of the close and the open at each volume switch inside `compress`. Signals are left
out.

The properties are proved over every run, from a step lemma per pass and a run lemma over
the loop: an input file is removed only after its own output file was created, written with
result 0 and closed, and only a regular file, never with `--keep`, `--stdout`, `--output` or
`--test` or into volumes; an exit status of 0 means every named input was handled without
error, every volume switch included; a file is deleted only if this run created it, under the
output name of its mode or a volume name derived from it; an output is left pending only when
it is a terminal; and `--test` and `--stdout` touch no file. The last three come from one loop
invariant (`Inv`), kept by every pass. -/
namespace Lzip
namespace FileLoop

open CommandLine Names

/-- The types of file `fstat` reports, as far as `open_instream` tells them apart. -/
inductive FileType
  | regular
  | blockDevice
  | charDevice
  | fifo
  | socket
  | other
deriving DecidableEq

/-- What the system answers at one volume switch inside `compress`. -/
structure SwitchAnswers where
  -- `close( outfd ) == 0` in `close_and_set_permissions` of the full volume
  close_out : Bool
  -- `open_outstream` creates the next volume
  open_out : Bool

/-- What the system answers while one input file is handled. -/
structure FileAnswers where
  -- `open` returns a descriptor for the input
  open_ok : Bool
  -- what `fstat` reports of the input, `none` when it fails
  fstat : Option FileType
  -- `isatty( infd )`
  tty_in : Bool
  -- `open_outstream` creates the output file
  open_out : Bool
  -- `isatty( outfd )`
  tty_out : Bool
  -- the volume switches `compress` makes, in order
  switches : List SwitchAnswers
  -- what `compress` or `decompress` returns after its last switch, 1 after a caught exception
  result : Nat
  -- `close( infd ) == 0`
  close_in : Bool
  -- `close( outfd ) == 0` in `close_and_set_permissions`
  close_out : Bool

/-- Where `outfd` points: nowhere (-1), standard output, or an output file this run created. -/
inductive OutFd
  | none
  | stdout
  | file
deriving DecidableEq

/-- The settings the loop reads, fixed before it starts. -/
structure LoopConfig where
  program_mode : Mode
  keep_input_files : Bool
  recompress : Bool
  volume_size : Nat
  default_output_filename : List Char
  filenames_given : Bool
  to_stdout : Bool

/-- `to_file`: all the output goes to the file named by `--output`. -/
def LoopConfig.to_file (c : LoopConfig) : Bool :=
  !c.to_stdout && c.program_mode != .test && !c.default_output_filename.isEmpty

/-- `one_to_one`: each input file gets its own output file. -/
def LoopConfig.one_to_one (c : LoopConfig) : Bool :=
  !c.to_stdout && c.program_mode != .test && !c.to_file

/-- The variables the loop changes, with three ghost lists: the input files removed, the
output files `cleanup_and_fail` deleted, and the output files `open_outstream` created. -/
structure LoopVars where
  retval : Nat
  failed_tests : Nat
  stdin_used : Bool
  outfd : OutFd
  output_filename : List Char
  delete_output_on_interrupt : Bool
  removed : List (List Char)
  deleted : List (List Char)
  created : List (List Char)

/-- How handling one input ends: with the next input, or with the end of `main` (a `return`
or the `exit` in `cleanup_and_fail`). -/
inductive Step
  | next (v : LoopVars)
  | exit (code : Nat) (v : LoopVars)

/-- `set_retval( retval, new_val )`. -/
def setRetval (retval new_val : Nat) : Nat := if retval < new_val then new_val else retval

/-- `cleanup_and_fail`: delete the output file if this run created it; the variables at the
`exit`. -/
def cleanupAndFail (v : LoopVars) : LoopVars :=
  if v.delete_output_on_interrupt then
    { v with delete_output_on_interrupt := false, outfd := .none,
             deleted := v.deleted ++ [v.output_filename] }
  else v

/-- `check_tty_in`: `none` when the input may be read, else how its failure goes on. -/
def checkTtyIn (c : LoopConfig) (v : LoopVars) (a : FileAnswers) : Option Step :=
  if (c.program_mode = .decompress ∨ c.program_mode = .test) ∧ a.tty_in = true then
    let v := { v with retval := setRetval v.retval 2 }
    some (if c.program_mode ≠ .test then .exit v.retval (cleanupAndFail v) else .next v)
  else none

/-- `check_tty_out`: false when compressed data would go to a terminal. -/
def checkTtyOut (program_mode : Mode) (tty_out : Bool) : Bool :=
  !(program_mode = .compress ∧ tty_out = true)

/-- The removal of the input at the end of a pass: named, not kept, one-to-one, and not split
into volumes. -/
def removeInput (c : LoopConfig) (v : LoopVars) (input_filename : List Char) : LoopVars :=
  if input_filename ≠ [] ∧ c.keep_input_files = false ∧ c.one_to_one ∧
      (c.program_mode ≠ .compress ∨ c.volume_size = 0) then
    { v with removed := v.removed ++ [input_filename] }
  else v

/-- How a call of `compress` or `decompress` ends, as `main`'s variables see it: it returns
`tmp`, or `cleanup_and_fail( 1 )` exits. -/
inductive Run
  | ret (tmp : Nat) (v : LoopVars)
  | exit (v : LoopVars)

/-- The volume switches of `compress` from `v`: `close_and_set_permissions` of the full volume
(a failed close ends in `cleanup_and_fail( 1 )`), `next_filename`, and `open_outstream` of the
next volume, either of which failing makes `compress` return 1; after the last switch it
returns `result`. -/
def switchLoop (result : Nat) : LoopVars → List SwitchAnswers → Run
  | v, [] => .ret result v
  | v, sw :: sws =>
    if !sw.close_out then .exit (cleanupAndFail v)
    else
      let (ok, name) := nextFilename v.output_filename
      let v := { v with outfd := .none, delete_output_on_interrupt := false,
                        output_filename := name }
      if !ok then .ret 1 v
      else if !sw.open_out then .ret 1 v
      else switchLoop result { v with outfd := .file, delete_output_on_interrupt := true,
                                      created := v.created ++ [name] } sws

/-- `compress` or `decompress` as `main` sees it: only `compress` into volumes of an output it
created switches volumes. -/
def runCoder (c : LoopConfig) (v : LoopVars) (a : FileAnswers) : Run :=
  if c.program_mode = .compress ∧ c.volume_size > 0 ∧ v.delete_output_on_interrupt then
    switchLoop a.result v a.switches
  else .ret a.result v

/-- After `compress` or `decompress` returned `result`: the close of the input, `set_retval`,
the failure, `close_and_set_permissions` of a one-to-one output, and the removal of the
input. -/
def finishPass (c : LoopConfig) (v : LoopVars) (input_filename : List Char) (a : FileAnswers)
    (result : Nat) : Step :=
  let tmp := if a.close_in then result else setRetval result 1
  let v := { v with retval := setRetval v.retval tmp }
  if tmp ≠ 0 ∧ c.program_mode ≠ .test then .exit v.retval (cleanupAndFail v)
  else
    let v := { v with failed_tests := if tmp ≠ 0 then v.failed_tests + 1 else v.failed_tests }
    if v.delete_output_on_interrupt ∧ c.one_to_one then
      if a.close_out then
        .next (removeInput c { v with outfd := .none, delete_output_on_interrupt := false }
          input_filename)
      else .exit 1 (cleanupAndFail v)
    else .next (removeInput c v input_filename)

/-- From `compress` or `decompress` on. -/
def process (c : LoopConfig) (v : LoopVars) (input_filename : List Char) (a : FileAnswers) :
    Step :=
  match runCoder c v a with
  | .exit v => .exit 1 v
  | .ret result v => finishPass c v input_filename a result

/-- The output name of a one-to-one pass on `name`: `set_c_outname` with the extension forced,
or `set_d_outname`. -/
def oneToOneName (c : LoopConfig) (name : List Char) (eindex : Option Nat) : List Char :=
  if c.program_mode = .compress then setCOutname name true true (decide (c.volume_size > 0))
  else setDOutname name eindex

/-- The name of the `--output` file. -/
def toFileName (c : LoopConfig) : List Char :=
  if c.program_mode = .compress then
    setCOutname c.default_output_filename c.filenames_given false (decide (c.volume_size > 0))
  else c.default_output_filename

/-- After the input is open: the output checks and, with `--output`, the opening of the one
output file; then `process`. -/
def afterOpen (c : LoopConfig) (v : LoopVars) (input_filename : List Char) (a : FileAnswers) :
    Step :=
  if c.one_to_one ∧ checkTtyOut c.program_mode a.tty_out = false then
    .exit (setRetval v.retval 1) { v with retval := setRetval v.retval 1 }
  else if c.to_file ∧ v.outfd = .none then
    let v := { v with output_filename := toFileName c }
    if !a.open_out then .exit 1 v
    else
      let v := { v with outfd := .file, delete_output_on_interrupt := true,
                        created := v.created ++ [toFileName c] }
      if !checkTtyOut c.program_mode a.tty_out then .exit 1 v
      else process c v input_filename a
  else process c v input_filename a

/-- `open_instream`: whether the input is accepted, from the answers of `open` and `fstat`. A
file that is not regular is read only when `reg_only` is false, it is a device, a fifo or a
socket, and the run is not one-to-one. -/
def openInstream (open_ok : Bool) (fstat : Option FileType) (one_to_one reg_only : Bool) :
    Bool :=
  if !open_ok then false
  else
    match fstat with
    | none => false
    | some mode =>
      let can_read := !reg_only && (mode = .blockDevice || mode = .charDevice ||
        mode = .fifo || mode = .socket)
      !(mode ≠ .regular && (!can_read || one_to_one))

/-- One pass of `for( unsigned i = 0; i < filenames.size(); ++i )`, on the file `name`. -/
def fileStep (c : LoopConfig) (v : LoopVars) (name : List Char) (a : FileAnswers) : Step :=
  if name = "-".toList then
    if v.stdin_used then .next v
    else
      let v := { v with stdin_used := true }
      match checkTtyIn c v a with
      | some s => s
      | none =>
        let v := if c.one_to_one then { v with outfd := .stdout, output_filename := [] } else v
        afterOpen c v [] a
  else
    let eindex := extensionIndex name
    if (c.program_mode = .compress ∧ c.recompress = false ∧ eindex.isSome) ∨
        openInstream a.open_ok a.fstat c.one_to_one false = false then
      .next { v with retval := setRetval v.retval 1 }
    else
      match checkTtyIn c v a with
      | some s => s
      | none =>
        if c.one_to_one then
          let v := { v with output_filename := oneToOneName c name eindex }
          if !a.open_out then .next { v with outfd := .none, retval := setRetval v.retval 1 }
          else afterOpen c { v with outfd := .file, delete_output_on_interrupt := true,
                                    created := v.created ++ [oneToOneName c name eindex] } name a
        else afterOpen c v name a

/-- The loop over the input files from index `i`. -/
def fileLoop (c : LoopConfig) (env : Nat → FileAnswers) : Nat → List (List Char) → LoopVars → Step
  | _, [], v => .next v
  | i, name :: names, v =>
    match fileStep c v name (env i) with
    | .next v => fileLoop c env (i + 1) names v
    | .exit code v => .exit code v

/-- How `main` ends after the options. -/
inductive MainEnd
  | list
  | exit (code : Nat) (v : LoopVars)

/-- The input files removed by a run of `main`. -/
def MainEnd.removed : MainEnd → List (List Char)
  | .list => []
  | .exit _ v => v.removed

/-- The settings `main` derives from the options and the arguments before the loop:
`filenames_given`, `volume_size` zeroed unless compressing, and the overrides of test mode and
`--stdout`. -/
def mainConfig (o : MainOptions) (args : List (List Char)) : LoopConfig :=
  let to_stdout := if o.program_mode = .test then false else o.to_stdout
  { program_mode := o.program_mode
    keep_input_files := o.keep_input_files
    recompress := o.recompress
    volume_size := if o.program_mode = .compress then o.volume_size else 0
    default_output_filename :=
      if o.program_mode = .test ∨ to_stdout = true then [] else o.default_output_filename
    filenames_given := args.any (· ≠ "-".toList)
    to_stdout := to_stdout }

/-- How `main` ends from where its loop ends: an `exit` inside the loop ends it; after the last
file, the `--output` file is closed and given its permissions (a failed close deletes it), or
the standard output is closed. -/
def closeOutput (s : Step) (final_close : Bool) : MainEnd :=
  match s with
  | .exit code v => .exit code v
  | .next v =>
    if v.delete_output_on_interrupt then
      if final_close then
        .exit v.retval { v with outfd := .none, delete_output_on_interrupt := false }
      else .exit 1 (cleanupAndFail v)
    else if v.outfd ≠ .none ∧ final_close = false then
      .exit (setRetval v.retval 1) { v with retval := setRetval v.retval 1 }
    else .exit v.retval v

/-- The input files of `main`: standard input when no file is given. -/
def mainFiles (args : List (List Char)) : List (List Char) :=
  if args = [] then ["-".toList] else args

/-- The variables at the head of the loop: `outfd` is standard output with `--stdout`. -/
def mainStart (c : LoopConfig) : LoopVars :=
  let v0 : LoopVars := ⟨0, 0, false, .none, [], false, [], [], []⟩
  if c.to_stdout = true ∧ c.program_mode ≠ .test then { v0 with outfd := .stdout } else v0

/-- `main` after the options, over the non-option arguments `args`; `tty_stdout` is
`isatty( STDOUT_FILENO )` and `final_close` whether the last `close` of the output succeeds. -/
def runMain (o : MainOptions) (args : List (List Char)) (tty_stdout : Bool)
    (env : Nat → FileAnswers) (final_close : Bool) : MainEnd :=
  let filenames := mainFiles args
  if o.program_mode = .list then .list
  else
    let v0 : LoopVars := ⟨0, 0, false, .none, [], false, [], [], []⟩
    if o.program_mode = .compress ∧ o.volume_size > 0 ∧ o.to_stdout = false ∧
        o.default_output_filename ≠ [] ∧ filenames.length > 1 then .exit 1 v0
    else
      let c := mainConfig o args
      if c.to_stdout = true ∧ c.program_mode ≠ .test ∧
          checkTtyOut c.program_mode tty_stdout = false then .exit 1 v0
      else closeOutput (fileLoop c env 0 filenames (mainStart c)) final_close

@[simp] theorem setRetval_eq_max (retval new_val : Nat) :
    setRetval retval new_val = max retval new_val := by
  unfold setRetval; split <;> omega

@[simp] theorem cleanupAndFail_removed (v : LoopVars) : (cleanupAndFail v).removed = v.removed := by
  unfold cleanupAndFail; split <;> rfl

@[simp] theorem cleanupAndFail_created (v : LoopVars) : (cleanupAndFail v).created = v.created := by
  unfold cleanupAndFail; split <;> rfl

theorem one_to_one_iff (c : LoopConfig) : c.one_to_one = true ↔
    c.to_stdout = false ∧ c.program_mode ≠ .test ∧ c.default_output_filename = [] := by
  unfold LoopConfig.one_to_one LoopConfig.to_file
  cases c.to_stdout <;> by_cases c.program_mode = .test <;> simp [*]

theorem one_to_one_of_to_file {c : LoopConfig} (h : c.to_file = true) : c.one_to_one = false := by
  simp [LoopConfig.one_to_one, h]

theorem to_file_of_one_to_one_false {c : LoopConfig} (h : c.one_to_one = false)
    (hs : c.to_stdout = false) (ht : c.program_mode ≠ .test) : c.to_file = true := by
  simpa [LoopConfig.one_to_one, hs, ht] using h

def Step.Within (v : LoopVars) (clean : Prop) (removable : List Char → Prop) : Step → Prop
  | .next v' => v.retval ≤ v'.retval ∧ (v'.retval = 0 → clean) ∧
      ∀ f ∈ v'.removed, f ∈ v.removed ∨ removable f
  | .exit code v' => 0 < code ∧ ∀ f ∈ v'.removed, f ∈ v.removed ∨ removable f

theorem Step.Within.mono {s : Step} {v : LoopVars} {clean clean' : Prop}
    {r r' : List Char → Prop} (h : s.Within v clean r) (hc : clean → clean')
    (hr : ∀ f, r f → r' f) : s.Within v clean' r' := by
  cases s with
  | next v' => exact ⟨h.1, fun h0 => hc (h.2.1 h0), fun f hf => (h.2.2 f hf).imp_right (hr f)⟩
  | exit code v' => exact ⟨h.1, fun f hf => (h.2 f hf).imp_right (hr f)⟩

theorem Step.Within.of_vars {s : Step} {v v₁ : LoopVars} {clean : Prop} {r : List Char → Prop}
    (h : s.Within v₁ clean r) (hle : v.retval ≤ v₁.retval) (hrm : v₁.removed = v.removed) :
    s.Within v clean r := by
  cases s with
  | next v' => exact ⟨le_trans hle h.1, h.2.1, hrm ▸ h.2.2⟩
  | exit code v' => exact ⟨h.1, hrm ▸ h.2⟩

def Processed (c : LoopConfig) (delete : Bool) (a : FileAnswers) (result : Nat) : Prop :=
  result = 0 ∧ a.close_in = true ∧ (c.one_to_one = true → delete = true → a.close_out = true)

/-- Every volume switch of a pass closed the full volume and created the next one. -/
def SwitchesOk (a : FileAnswers) : Prop :=
  ∀ sw ∈ a.switches, sw.close_out = true ∧ sw.open_out = true

theorem removeInput_retval (c : LoopConfig) (v : LoopVars) (name : List Char) :
    (removeInput c v name).retval = v.retval := by
  unfold removeInput; split <;> rfl

theorem mem_removeInput {c : LoopConfig} {v : LoopVars} {name f : List Char}
    (h : f ∈ (removeInput c v name).removed) :
    f ∈ v.removed ∨ (f = name ∧ name ≠ [] ∧ c.keep_input_files = false ∧ c.one_to_one = true ∧
      (c.program_mode ≠ .compress ∨ c.volume_size = 0)) := by
  unfold removeInput at h
  split at h
  · simp only [List.mem_append, List.mem_singleton] at h
    exact h.imp_right fun hf => ⟨hf, ‹_›⟩
  · exact .inl h

theorem one_to_one_ne_test {c : LoopConfig} (h : c.one_to_one = true) : c.program_mode ≠ .test :=
  ((one_to_one_iff c).1 h).2.1

theorem within_removeInput {c : LoopConfig} {v v' : LoopVars} {name : List Char} {clean R : Prop}
    (hle : v.retval ≤ v'.retval) (hrm : v'.removed = v.removed) (hclean : v'.retval = 0 → clean)
    (hR : c.one_to_one = true → R) :
    (Step.next (removeInput c v' name)).Within v clean
      (fun f => f = name ∧ name ≠ [] ∧ R ∧ c.one_to_one = true ∧ c.keep_input_files = false ∧
        (c.program_mode ≠ .compress ∨ c.volume_size = 0)) := by
  refine ⟨by rw [removeInput_retval]; exact hle, fun h => hclean (by rwa [removeInput_retval] at h),
    fun f hf => ?_⟩
  rcases mem_removeInput hf with hf | ⟨rfl, hn, hk, ho, hv⟩
  · exact .inl (hrm ▸ hf)
  · exact .inr ⟨rfl, hn, hR ho, ho, hk, hv⟩

theorem finishPass_within (c : LoopConfig) (v : LoopVars) (name : List Char) (a : FileAnswers)
    (result : Nat) :
    (finishPass c v name a result).Within v (Processed c v.delete_output_on_interrupt a result)
      (fun f => f = name ∧ name ≠ [] ∧ Processed c v.delete_output_on_interrupt a result ∧
        c.one_to_one = true ∧ c.keep_input_files = false ∧
        (c.program_mode ≠ .compress ∨ c.volume_size = 0)) := by
  have htmp : (if a.close_in then result else max result 1) = 0 ↔
      result = 0 ∧ a.close_in = true := by
    cases a.close_in <;> simp
  unfold finishPass
  simp only [setRetval_eq_max]
  generalize (if a.close_in then result else max result 1) = tmp at htmp ⊢
  by_cases h1 : tmp ≠ 0 ∧ c.program_mode ≠ .test
  · rw [if_pos h1]
    exact ⟨by omega, fun f hf => .inl (by simpa using hf)⟩
  rw [if_neg h1]
  /- the pass goes on: with `one_to_one` the result was 0 -/
  have hdone : ∀ d : Bool, c.one_to_one = true → (d = true → a.close_out = true) →
      Processed c d a result := fun d ho hd =>
    have := htmp.1 (not_not.1 fun h => h1 ⟨h, one_to_one_ne_test ho⟩)
    ⟨this.1, this.2, fun _ => hd⟩
  by_cases h2 : v.delete_output_on_interrupt = true ∧ c.one_to_one = true
  · rw [if_pos h2]
    by_cases h3 : a.close_out = true
    · rw [if_pos h3]
      exact within_removeInput (by simp) rfl
        (fun h => hdone _ h2.2 fun _ => h3) (fun ho => hdone _ ho fun _ => h3)
    · rw [if_neg h3]
      exact ⟨one_pos, fun f hf => .inl (by simpa using hf)⟩
  · rw [if_neg h2]
    exact within_removeInput (by simp) rfl
      (fun h => ⟨(htmp.1 (by simp at h; omega)).1, (htmp.1 (by simp at h; omega)).2,
        fun ho hd => absurd ⟨hd, ho⟩ h2⟩)
      (fun ho => hdone _ ho fun hd => absurd ⟨hd, ho⟩ h2)

@[simp] theorem cleanupAndFail_retval (v : LoopVars) : (cleanupAndFail v).retval = v.retval := by
  unfold cleanupAndFail; split <;> rfl

theorem switchLoop_ret {result : Nat} : ∀ {v v' : LoopVars} {sws : List SwitchAnswers} {r : Nat},
    switchLoop result v sws = .ret r v' →
    v'.retval = v.retval ∧ v'.removed = v.removed ∧
      (r = 1 ∨ (r = result ∧ (∀ sw ∈ sws, sw.close_out = true ∧ sw.open_out = true) ∧
        (v'.delete_output_on_interrupt = true ∨ v' = v)))
  | v, v', [], r, h => by cases h; exact ⟨rfl, rfl, .inr ⟨rfl, by simp, .inr rfl⟩⟩
  | v, v', sw :: sws, r, h => by
    simp only [switchLoop] at h
    split at h
    · cases h
    rename_i hc
    rcases hn : nextFilename v.output_filename with ⟨ok, name⟩
    rw [hn] at h
    simp only at h
    split at h
    · cases h; exact ⟨rfl, rfl, .inl rfl⟩
    split at h
    · cases h; exact ⟨rfl, rfl, .inl rfl⟩
    rename_i ho
    obtain ⟨hr, hm, he⟩ := switchLoop_ret h
    refine ⟨hr, hm, he.imp_right fun ⟨he, hok, hd⟩ =>
      ⟨he, List.forall_mem_cons.2 ⟨⟨by simpa using hc, by simpa using ho⟩, hok⟩, .inl ?_⟩⟩
    rcases hd with hd | rfl
    exacts [hd, rfl]

theorem switchLoop_exit {result : Nat} : ∀ {v v' : LoopVars} {sws : List SwitchAnswers},
    switchLoop result v sws = .exit v' → v'.removed = v.removed
  | v, v', [], h => by cases h
  | v, v', sw :: sws, h => by
    simp only [switchLoop] at h
    split at h
    · cases h; exact cleanupAndFail_removed v
    rcases hn : nextFilename v.output_filename with ⟨ok, name⟩
    rw [hn] at h
    simp only at h
    split at h
    · cases h
    split at h
    · cases h
    exact (switchLoop_exit h).trans rfl

theorem runCoder_ret {c : LoopConfig} {v v' : LoopVars} {a : FileAnswers} {r : Nat}
    (h : runCoder c v a = .ret r v') :
    v'.retval = v.retval ∧ v'.removed = v.removed ∧
      (r = 1 ∨ (r = a.result ∧ v'.delete_output_on_interrupt = v.delete_output_on_interrupt ∧
        (c.program_mode = .compress → c.volume_size > 0 → v.delete_output_on_interrupt = true →
          SwitchesOk a))) := by
  unfold runCoder at h
  split at h
  · rename_i hs
    obtain ⟨hr, hm, he⟩ := switchLoop_ret h
    refine ⟨hr, hm, he.imp_right fun ⟨he, hok, hd⟩ => ⟨he, ?_, fun _ _ _ => hok⟩⟩
    rcases hd with hd | rfl
    · rw [hd, hs.2.2]
    · rfl
  · rename_i hs
    cases h
    exact ⟨rfl, rfl, .inr ⟨rfl, rfl, fun hm hv hd => absurd ⟨hm, hv, hd⟩ hs⟩⟩

theorem process_within (c : LoopConfig) (v : LoopVars) (name : List Char) (a : FileAnswers) :
    (process c v name a).Within v (Processed c v.delete_output_on_interrupt a a.result ∧
        (c.program_mode = .compress → c.volume_size > 0 → v.delete_output_on_interrupt = true →
          SwitchesOk a))
      (fun f => f = name ∧ name ≠ [] ∧ Processed c v.delete_output_on_interrupt a a.result ∧
        c.one_to_one = true ∧ c.keep_input_files = false ∧
        (c.program_mode ≠ .compress ∨ c.volume_size = 0)) := by
  unfold process
  split
  · rename_i v' h
    unfold runCoder at h
    split at h
    · exact ⟨one_pos, fun f hf => .inl (switchLoop_exit h ▸ hf)⟩
    · cases h
  · rename_i r v' h
    obtain ⟨hr, hm, he⟩ := runCoder_ret h
    /- a failed volume switch returned 1, which is never a clean end -/
    have hp : Processed c v'.delete_output_on_interrupt a r →
        Processed c v.delete_output_on_interrupt a a.result ∧
          (c.program_mode = .compress → c.volume_size > 0 → v.delete_output_on_interrupt = true →
            SwitchesOk a) := fun hp => by
      rcases he with rfl | ⟨rfl, hd, hsw⟩
      · exact absurd hp.1 one_ne_zero
      · rw [hd] at hp
        exact ⟨hp, hsw⟩
    exact ((finishPass_within c v' name a r).of_vars hr.ge hm).mono hp
      fun f ⟨hf, hn, hq, hrest⟩ => ⟨hf, hn, (hp hq).1, hrest⟩

theorem Processed.of_true {c : LoopConfig} {d : Bool} {a : FileAnswers} {result : Nat}
    (h : Processed c true a result) : Processed c d a result :=
  ⟨h.1, h.2.1, fun ho _ => h.2.2 ho rfl⟩

theorem afterOpen_within (c : LoopConfig) (v : LoopVars) (name : List Char) (a : FileAnswers)
    (hfd : c.to_file = true → v.outfd ≠ .none → v.delete_output_on_interrupt = true) :
    (afterOpen c v name a).Within v
      ((c.one_to_one = true → checkTtyOut c.program_mode a.tty_out = true) ∧
        Processed c v.delete_output_on_interrupt a a.result ∧
        (c.program_mode = .compress → c.volume_size > 0 →
          (c.to_file = true ∨ v.delete_output_on_interrupt = true) → SwitchesOk a))
      (fun f => f = name ∧ name ≠ [] ∧ Processed c v.delete_output_on_interrupt a a.result ∧
        c.one_to_one = true ∧ c.keep_input_files = false ∧
        (c.program_mode ≠ .compress ∨ c.volume_size = 0)) := by
  unfold afterOpen
  by_cases h1 : c.one_to_one = true ∧ checkTtyOut c.program_mode a.tty_out = false
  · rw [if_pos h1]
    exact ⟨by simp, fun f hf => .inl hf⟩
  rw [if_neg h1]
  have htty : c.one_to_one = true → checkTtyOut c.program_mode a.tty_out = true := by
    simpa using h1
  by_cases h2 : c.to_file = true ∧ v.outfd = .none
  · rw [if_pos h2]
    simp only
    by_cases h3 : a.open_out = true
    · by_cases h4 : checkTtyOut c.program_mode a.tty_out = true
      · rw [if_neg (by simp [h3]), if_neg (by simp [h4])]
        refine ((process_within c _ name a).of_vars le_rfl rfl).mono
          (fun ⟨hp, hsw⟩ => ⟨htty, hp.of_true, fun hm hv _ => hsw hm hv rfl⟩)
          fun f ⟨hf, hn, hp, hr⟩ => ⟨hf, hn, hp.of_true, hr⟩
      · simp only [h3, h4, Bool.not_true, Bool.not_false, Bool.false_eq_true, if_false, if_true]
        exact ⟨one_pos, fun f hf => .inl hf⟩
    · simp only [h3, Bool.not_false, if_true]
      exact ⟨one_pos, fun f hf => .inl hf⟩
  · rw [if_neg h2]
    /- an open `--output` file is pending deletion, so `compress` switches its volumes -/
    have hd : c.to_file = true ∨ v.delete_output_on_interrupt = true →
        v.delete_output_on_interrupt = true := fun h =>
      h.elim (fun ht => hfd ht fun ho => h2 ⟨ht, ho⟩) id
    exact (process_within c v name a).mono
      (fun ⟨hp, hsw⟩ => ⟨htty, hp, fun hm hv h => hsw hm hv (hd h)⟩) fun _ => id

theorem checkTtyIn_within {c : LoopConfig} {v : LoopVars} {a : FileAnswers} {s : Step}
    {r : List Char → Prop} (h : checkTtyIn c v a = some s) : s.Within v False r := by
  unfold checkTtyIn at h
  split at h
  · cases h
    split
    · exact ⟨by simp, fun f hf => .inl (by simpa using hf)⟩
    · exact ⟨by simp, fun h0 => by simp at h0, fun f hf => .inl hf⟩
  · cases h

theorem checkTtyIn_eq_none {c : LoopConfig} {v : LoopVars} {a : FileAnswers} :
    checkTtyIn c v a = none ↔
      ¬((c.program_mode = .decompress ∨ c.program_mode = .test) ∧ a.tty_in = true) := by
  unfold checkTtyIn
  split <;> simp [*]

theorem openInstream_one_to_one {open_ok : Bool} {fstat : Option FileType} {reg_only : Bool}
    (h : openInstream open_ok fstat true reg_only = true) :
    open_ok = true ∧ fstat = some .regular := by
  cases open_ok <;> rcases fstat with _ | _ | _ | _ | _ | _ | _ <;> simp [openInstream] at h ⊢

/-- The answers under which the pass on the named input `name` sets no error: the input is not
refused for its suffix, opens, is not a terminal that compressed data would be read from, its
one-to-one output is created, is not a terminal that compressed data would be written to, and
closes, the input is read with result 0 and closes, and every volume switch of a compression into
volumes of output files succeeds. -/
def Clean (c : LoopConfig) (name : List Char) (a : FileAnswers) : Prop :=
  ¬(c.program_mode = .compress ∧ c.recompress = false ∧ (extensionIndex name).isSome) ∧
  openInstream a.open_ok a.fstat c.one_to_one false = true ∧
  ¬((c.program_mode = .decompress ∨ c.program_mode = .test) ∧ a.tty_in = true) ∧
  (c.one_to_one = true →
    a.open_out = true ∧ checkTtyOut c.program_mode a.tty_out = true ∧ a.close_out = true) ∧
  a.result = 0 ∧ a.close_in = true ∧
  (c.program_mode = .compress → c.volume_size > 0 → c.to_stdout = false → SwitchesOk a)

/-- When the pass on `name` may remove it: a named input, opened, read with result 0 and closed,
whose own output file was created and closed, in a one-to-one run that keeps no inputs and
writes no volumes. -/
def Removable (c : LoopConfig) (a : FileAnswers) (name : List Char) : Prop :=
  name ≠ "-".toList ∧ a.open_ok = true ∧ a.fstat = some .regular ∧ a.open_out = true ∧
  a.result = 0 ∧
  a.close_in = true ∧ a.close_out = true ∧ c.one_to_one = true ∧ c.keep_input_files = false ∧
  (c.program_mode ≠ .compress ∨ c.volume_size = 0)

theorem fileStep_within (c : LoopConfig) (v : LoopVars) (name : List Char) (a : FileAnswers)
    (hfd : c.to_file = true → v.outfd ≠ .none → v.delete_output_on_interrupt = true) :
    (fileStep c v name a).Within v (name ≠ "-".toList → Clean c name a)
      (fun f => f = name ∧ Removable c a name) := by
  unfold fileStep
  by_cases hn : name = "-".toList
  · /- standard input: never removed, and not a named input -/
    rw [if_pos hn]
    by_cases hs : v.stdin_used = true
    · rw [if_pos hs]
      exact ⟨le_rfl, fun _ h => absurd hn h, fun f hf => .inl hf⟩
    rw [if_neg hs]
    simp only
    split
    · rename_i hts
      exact ((checkTtyIn_within hts).of_vars le_rfl rfl).mono False.elim fun _ => False.elim
    · refine ((afterOpen_within c _ [] a ?_).of_vars ?_ ?_).mono (fun _ h => absurd hn h)
        fun f ⟨_, hne, _⟩ => absurd rfl hne
      · split
        · exact fun ht => absurd (one_to_one_of_to_file ht) (by simp [*])
        · exact hfd
      all_goals split <;> rfl
  rw [if_neg hn]
  simp only
  by_cases hr : (c.program_mode = .compress ∧ c.recompress = false ∧
      (extensionIndex name).isSome = true) ∨
      openInstream a.open_ok a.fstat c.one_to_one false = false
  · rw [if_pos hr]
    exact ⟨by simp, fun h => by simp at h, fun f hf => .inl hf⟩
  rw [if_neg hr]
  have ⟨hsuf, hopen⟩ : ¬(c.program_mode = .compress ∧ c.recompress = false ∧
      (extensionIndex name).isSome = true) ∧
      openInstream a.open_ok a.fstat c.one_to_one false = true := by simpa using hr
  cases ht : checkTtyIn c v a with
  | some s => exact (checkTtyIn_within ht).mono False.elim fun _ => False.elim
  | none =>
    have htty := checkTtyIn_eq_none.1 ht
    simp only
    by_cases ho : c.one_to_one = true
    · rw [if_pos ho]
      have hreg := openInstream_one_to_one (ho ▸ hopen)
      by_cases hoo : a.open_out = true
      · simp only [hoo, Bool.not_true, Bool.false_eq_true, if_false]
        refine ((afterOpen_within c _ name a fun _ _ => rfl).of_vars le_rfl rfl).mono
          (fun ⟨htt, hp, hsw⟩ _ => ⟨hsuf, hopen, htty, fun _ => ⟨hoo, htt ho, hp.2.2 ho rfl⟩, hp.1,
            hp.2.1, fun hm hv _ => hsw hm hv (.inr rfl)⟩)
          fun f ⟨hf, _, hp, hk⟩ => ⟨hf, hn, hreg.1, hreg.2, hoo, hp.1, hp.2.1, hp.2.2 ho rfl, hk⟩
      · simp only [hoo, Bool.not_false, if_true]
        exact ⟨by simp, fun h => by simp at h, fun f hf => .inl hf⟩
    · rw [if_neg ho]
      /- compressing to files without one output per input goes to the `--output` file -/
      have hto : c.program_mode = .compress → c.to_stdout = false → c.to_file = true :=
        fun hm hs => to_file_of_one_to_one_false (by simpa using ho) hs (by rw [hm]; decide)
      exact (afterOpen_within c v name a hfd).mono
        (fun ⟨_, hp, hsw⟩ _ => ⟨hsuf, hopen, htty, fun h => absurd h ho, hp.1, hp.2.1,
          fun hm hv hs => hsw hm hv (.inl (hto hm hs))⟩)
        fun f ⟨_, _, _, h, _⟩ => absurd h ho

theorem Step.Within.trans {s : Step} {v v₁ : LoopVars} {c₁ c₂ : Prop}
    {r₁ r₂ : List Char → Prop} (h₁ : (Step.next v₁).Within v c₁ r₁) (h₂ : s.Within v₁ c₂ r₂) :
    s.Within v (c₁ ∧ c₂) (fun f => r₁ f ∨ r₂ f) := by
  have hrm : ∀ f, f ∈ v₁.removed ∨ r₂ f → f ∈ v.removed ∨ r₁ f ∨ r₂ f := fun f hf =>
    hf.elim (fun h => (h₁.2.2 f h).imp_right .inl) (fun h => .inr (.inr h))
  cases s with
  | next v' =>
    exact ⟨le_trans h₁.1 h₂.1, fun h0 => ⟨h₁.2.1 (by have := h₂.1; omega), h₂.2.1 h0⟩,
      fun f hf => hrm f (h₂.2.2 f hf)⟩
  | exit code v' => exact ⟨h₂.1, fun f hf => hrm f (h₂.2 f hf)⟩

structure Inv (c : LoopConfig) (Q : List Char → Prop) (v : LoopVars) : Prop where
  pending : v.delete_output_on_interrupt = true →
    v.outfd = .file ∧ c.to_file = true ∧ v.output_filename ∈ v.created
  to_file_pending : c.to_file = true → v.outfd ≠ .none → v.delete_output_on_interrupt = true
  deleted_created : ∀ f ∈ v.deleted, f ∈ v.created
  created_ok : ∀ f ∈ v.created, Q f

structure MidInv (c : LoopConfig) (Q : List Char → Prop) (v : LoopVars) : Prop where
  pending : v.delete_output_on_interrupt = true → v.output_filename ∈ v.created ∧
    (c.one_to_one = true ∨ (v.outfd = .file ∧ c.to_file = true))
  to_file_pending : c.to_file = true → v.outfd ≠ .none → v.delete_output_on_interrupt = true
  deleted_created : ∀ f ∈ v.deleted, f ∈ v.created
  created_ok : ∀ f ∈ v.created, Q f

section Safety

variable {Q : List Char → Prop}

theorem Inv.mid {c : LoopConfig} {Q : List Char → Prop} {v : LoopVars} (h : Inv c Q v) :
    MidInv c Q v :=
  ⟨fun hd => ⟨(h.pending hd).2.2, .inr ⟨(h.pending hd).1, (h.pending hd).2.1⟩⟩,
    h.to_file_pending, h.deleted_created, h.created_ok⟩

def Step.Safe (c : LoopConfig) (Q : List Char → Prop) (tty : Prop) : Step → Prop
  | .next v' => Inv c Q v'
  | .exit _ v' => (∀ f ∈ v'.deleted, f ∈ v'.created) ∧ (∀ f ∈ v'.created, Q f) ∧
      (v'.delete_output_on_interrupt = true → tty)

def Run.Safe (c : LoopConfig) (Q : List Char → Prop) : Run → Prop
  | .ret _ v' => MidInv c Q v'
  | .exit v' => (∀ f ∈ v'.deleted, f ∈ v'.created) ∧ (∀ f ∈ v'.created, Q f) ∧
      v'.delete_output_on_interrupt = false

theorem Step.Safe.mono {c : LoopConfig} {Q : List Char → Prop} {tty tty' : Prop} {s : Step}
    (h : s.Safe c Q tty) (ht : tty → tty') : s.Safe c Q tty' := by
  cases s with
  | next v' => exact h
  | exit code v' => exact ⟨h.1, h.2.1, fun hd => ht (h.2.2 hd)⟩

theorem cleanupAndFail_ok {c : LoopConfig} {v : LoopVars} (h : MidInv c Q v) :
    (Run.exit (cleanupAndFail v)).Safe c Q := by
  refine ⟨?_, by simpa using h.created_ok, ?_⟩ <;> unfold cleanupAndFail <;> split
  · intro f hf
    simp only [List.mem_append, List.mem_singleton] at hf
    exact hf.elim (h.deleted_created f) fun hf => hf ▸ (h.pending ‹_›).1
  · exact h.deleted_created
  · rfl
  · simpa using ‹¬v.delete_output_on_interrupt = true›

theorem cleanupAndFail_safe {c : LoopConfig} {v : LoopVars} {code : Nat} {tty : Prop}
    (h : MidInv c Q v) : (Step.exit code (cleanupAndFail v)).Safe c Q tty :=
  ⟨(cleanupAndFail_ok h).1, (cleanupAndFail_ok h).2.1,
    fun hd => by simp [(cleanupAndFail_ok h).2.2] at hd⟩

@[simp] theorem removeInput_deleted (c : LoopConfig) (v : LoopVars) (name : List Char) :
    (removeInput c v name).deleted = v.deleted := by
  unfold removeInput; split <;> rfl

@[simp] theorem removeInput_created (c : LoopConfig) (v : LoopVars) (name : List Char) :
    (removeInput c v name).created = v.created := by
  unfold removeInput; split <;> rfl

@[simp] theorem removeInput_delete (c : LoopConfig) (v : LoopVars) (name : List Char) :
    (removeInput c v name).delete_output_on_interrupt = v.delete_output_on_interrupt := by
  unfold removeInput; split <;> rfl

@[simp] theorem removeInput_outfd (c : LoopConfig) (v : LoopVars) (name : List Char) :
    (removeInput c v name).outfd = v.outfd := by
  unfold removeInput; split <;> rfl

@[simp] theorem removeInput_output_filename (c : LoopConfig) (v : LoopVars) (name : List Char) :
    (removeInput c v name).output_filename = v.output_filename := by
  unfold removeInput; split <;> rfl

theorem created_append {v : LoopVars} {f : List Char} (h : ∀ g ∈ v.created, Q g) (hf : Q f) :
    ∀ g ∈ v.created ++ [f], Q g := fun g hg =>
  (List.mem_append.1 hg).elim (h g) fun hg => List.mem_singleton.1 hg ▸ hf

theorem finishPass_safe (c : LoopConfig) (v : LoopVars) (name : List Char) (a : FileAnswers)
    (result : Nat) (h : MidInv c Q v) : (finishPass c v name a result).Safe c Q False := by
  unfold finishPass
  simp only
  generalize (if a.close_in then result else setRetval result 1) = tmp
  by_cases h1 : tmp ≠ 0 ∧ c.program_mode ≠ .test
  · rw [if_pos h1]
    exact cleanupAndFail_safe ⟨h.pending, h.to_file_pending, h.deleted_created, h.created_ok⟩
  rw [if_neg h1]
  by_cases h2 : v.delete_output_on_interrupt = true ∧ c.one_to_one = true
  · rw [if_pos h2]
    split
    · exact ⟨fun hd => by simp at hd, fun _ ho => by simp at ho, by simpa using h.deleted_created,
        by simpa using h.created_ok⟩
    · exact cleanupAndFail_safe ⟨h.pending, h.to_file_pending, h.deleted_created, h.created_ok⟩
  · rw [if_neg h2]
    refine ⟨fun hd => ?_, by simpa using h.to_file_pending, by simpa using h.deleted_created,
      by simpa using h.created_ok⟩
    simp only [removeInput_delete, removeInput_outfd, removeInput_output_filename,
      removeInput_created] at hd ⊢
    have ⟨hmem, hmode⟩ := h.pending hd
    have hfile := hmode.resolve_left fun ho => h2 ⟨hd, ho⟩
    exact ⟨hfile.1, hfile.2, hmem⟩

theorem switchLoop_safe (hQn : ∀ f, Q f → Q (nextFilename f).2) (c : LoopConfig)
    (result : Nat) : ∀ (v : LoopVars) (sws : List SwitchAnswers),
    MidInv c Q v → v.delete_output_on_interrupt = true → (switchLoop result v sws).Safe c Q
  | v, [], h, _ => h
  | v, sw :: sws, h, hd => by
    simp only [switchLoop]
    split
    · exact cleanupAndFail_ok h
    have hname := hQn _ (h.created_ok _ (h.pending hd).1)
    rcases hn : nextFilename v.output_filename with ⟨ok, name⟩
    rw [hn] at hname
    simp only
    /- after the close nothing is pending -/
    have hclosed : MidInv c Q
        { v with outfd := .none, delete_output_on_interrupt := false, output_filename := name } :=
      ⟨fun h => absurd h (by simp), fun _ h => absurd rfl h, h.deleted_created, h.created_ok⟩
    split
    · exact hclosed
    split
    · exact hclosed
    refine switchLoop_safe hQn c result _ sws ⟨fun _ => ⟨by simp, ?_⟩, fun _ _ => rfl,
      fun f hf => by simp [h.deleted_created f hf], created_append h.created_ok hname⟩ rfl
    rcases (h.pending hd).2 with ho | ⟨-, ht⟩
    exacts [.inl ho, .inr ⟨rfl, ht⟩]

theorem process_safe (hQn : ∀ f, Q f → Q (nextFilename f).2) (c : LoopConfig) (v : LoopVars)
    (name : List Char) (a : FileAnswers) (h : MidInv c Q v) :
    (process c v name a).Safe c Q False := by
  have hrun : (runCoder c v a).Safe c Q := by
    unfold runCoder
    split
    · rename_i hs
      exact switchLoop_safe hQn c _ v _ h hs.2.2
    · exact h
  unfold process
  split
  · rename_i v' hr
    rw [hr] at hrun
    exact ⟨hrun.1, hrun.2.1, fun hd => by simp [hrun.2.2] at hd⟩
  · rename_i r v' hr
    rw [hr] at hrun
    exact finishPass_safe c v' name a r hrun

theorem checkTtyOut_eq_false {m : Mode} {t : Bool} :
    checkTtyOut m t = false ↔ m = .compress ∧ t = true := by
  simp [checkTtyOut]

theorem afterOpen_safe (hQn : ∀ f, Q f → Q (nextFilename f).2) (c : LoopConfig) (v : LoopVars)
    (name : List Char) (a : FileAnswers)
    (hQ : c.to_file = true → a.open_out = true → Q (toFileName c)) (h : MidInv c Q v) :
    (afterOpen c v name a).Safe c Q (c.program_mode = .compress ∧ a.tty_out = true) := by
  unfold afterOpen
  by_cases h1 : c.one_to_one = true ∧ checkTtyOut c.program_mode a.tty_out = false
  · rw [if_pos h1]
    exact ⟨h.deleted_created, h.created_ok, fun _ => checkTtyOut_eq_false.1 h1.2⟩
  rw [if_neg h1]
  by_cases h2 : c.to_file = true ∧ v.outfd = .none
  · rw [if_pos h2]
    simp only
    by_cases h3 : a.open_out = true
    · rw [if_neg (by simp [h3])]
      have hmid : MidInv c Q
          { v with output_filename := toFileName c, outfd := .file,
                   delete_output_on_interrupt := true, created := v.created ++ [toFileName c] } :=
        ⟨fun _ => ⟨by simp, .inr ⟨rfl, h2.1⟩⟩, fun _ _ => rfl,
          fun f hf => by simp [h.deleted_created f hf], created_append h.created_ok (hQ h2.1 h3)⟩
      by_cases h4 : checkTtyOut c.program_mode a.tty_out = true
      · rw [if_neg (by simp [h4])]
        exact (process_safe hQn c _ name a hmid).mono False.elim
      · rw [if_pos (by simpa using h4)]
        exact ⟨hmid.deleted_created, hmid.created_ok, fun _ => checkTtyOut_eq_false.1 (by simpa using h4)⟩
    · rw [if_pos (by simpa using h3)]
      refine ⟨h.deleted_created, h.created_ok, fun hd => ?_⟩
      have := (h.pending hd).2
      rw [one_to_one_of_to_file h2.1, h2.2] at this
      simp at this
  · rw [if_neg h2]
    exact (process_safe hQn c v name a h).mono False.elim

theorem checkTtyIn_safe {c : LoopConfig} {v : LoopVars} {a : FileAnswers} {s : Step}
    (hs : checkTtyIn c v a = some s) (h : Inv c Q v) : s.Safe c Q False := by
  unfold checkTtyIn at hs
  split at hs
  · cases hs
    split
    · exact cleanupAndFail_safe ⟨h.mid.pending, h.to_file_pending, h.deleted_created, h.created_ok⟩
    · exact ⟨h.pending, h.to_file_pending, h.deleted_created, h.created_ok⟩
  · cases hs

theorem fileStep_safe (hQn : ∀ f, Q f → Q (nextFilename f).2) (c : LoopConfig) (v : LoopVars)
    (name : List Char) (a : FileAnswers) (hQ : a.open_out = true →
      (c.to_file = true → Q (toFileName c)) ∧
      (c.one_to_one = true → name ≠ "-".toList → Q (oneToOneName c name (extensionIndex name))))
    (h : Inv c Q v) :
    (fileStep c v name a).Safe c Q (c.program_mode = .compress ∧ a.tty_out = true) := by
  /- one-to-one, no output is pending between passes -/
  have hdel : c.one_to_one = true → v.delete_output_on_interrupt = false := fun ho => by
    cases hd : v.delete_output_on_interrupt
    · rfl
    · rw [one_to_one_of_to_file (h.pending hd).2.1] at ho
      cases ho
  unfold fileStep
  by_cases hn : name = "-".toList
  · rw [if_pos hn]
    by_cases hs : v.stdin_used = true
    · rw [if_pos hs]
      exact h
    rw [if_neg hs]
    simp only
    split
    · rename_i hts
      exact (checkTtyIn_safe hts ⟨h.pending, h.to_file_pending, h.deleted_created, h.created_ok⟩).mono False.elim
    · apply afterOpen_safe hQn _ _ _ _ fun ht ho => (hQ ho).1 ht
      by_cases ho : c.one_to_one = true
      · rw [if_pos ho]
        exact ⟨fun hd => by simp [hdel ho] at hd,
          fun ht => absurd (one_to_one_of_to_file ht) (by simp [ho]), h.deleted_created, h.created_ok⟩
      · rw [if_neg ho]
        exact Inv.mid ⟨h.pending, h.to_file_pending, h.deleted_created, h.created_ok⟩
  rw [if_neg hn]
  simp only
  split
  · exact ⟨h.pending, h.to_file_pending, h.deleted_created, h.created_ok⟩
  cases ht : checkTtyIn c v a with
  | some s => exact (checkTtyIn_safe ht h).mono False.elim
  | none =>
    simp only
    by_cases ho : c.one_to_one = true
    · rw [if_pos ho]
      by_cases hoo : a.open_out = true
      · rw [if_neg (by simp [hoo])]
        exact afterOpen_safe hQn _ _ _ _ (fun ht ho => (hQ ho).1 ht)
          ⟨fun _ => ⟨by simp, .inl ho⟩, fun _ _ => rfl, fun f hf => by simp [h.deleted_created f hf],
            created_append h.created_ok ((hQ hoo).2 ho hn)⟩
      · rw [if_pos (by simpa using hoo)]
        exact ⟨fun hd => by simp [hdel ho] at hd, fun _ h => absurd rfl h, h.deleted_created,
          h.created_ok⟩
    · rw [if_neg ho]
      exact afterOpen_safe hQn c v name a (fun ht ho => (hQ ho).1 ht) h.mid

/-- The run lemma of the invariant: from a state that keeps it, with `Q` true of the output
names of the files still to come that open, the loop keeps it to its end. -/
theorem fileLoop_safe (hQn : ∀ f, Q f → Q (nextFilename f).2) (c : LoopConfig)
    (env : Nat → FileAnswers) :
    ∀ (names : List (List Char)) (i : Nat) (v : LoopVars),
    (∀ k name, names.get? k = some name → (env (i + k)).open_out = true →
      (c.to_file = true → Q (toFileName c)) ∧
      (c.one_to_one = true → name ≠ "-".toList → Q (oneToOneName c name (extensionIndex name)))) →
    Inv c Q v →
    (fileLoop c env i names v).Safe c Q True
  | [], _, _, _, h => h
  | name :: names, i, v, hQ, h => by
    have hs := fileStep_safe hQn c v name (env i) (hQ 0 name rfl) h
    simp only [fileLoop]
    cases hf : fileStep c v name (env i) with
    | exit code v' =>
      rw [hf] at hs
      exact hs.mono fun _ => trivial
    | next v' =>
      rw [hf] at hs
      refine fileLoop_safe hQn c env names (i + 1) v' (fun k n hk ho => hQ (k + 1) n hk ?_) hs
      rwa [show i + (k + 1) = i + 1 + k by omega]

theorem closeOutput_safe {c : LoopConfig} {tty : Prop} {s : Step} {final_close : Bool}
    {code : Nat} {v : LoopVars} (hs : s.Safe c Q tty)
    (h : closeOutput s final_close = .exit code v) : (Step.exit code v).Safe c Q tty := by
  cases s with
  | exit code' v' =>
    cases h
    exact hs
  | next v' =>
    simp only [closeOutput] at h
    by_cases hd : v'.delete_output_on_interrupt = true
    · rw [if_pos hd] at h
      cases final_close
      · cases h
        exact cleanupAndFail_safe hs.mid
      · cases h
        exact ⟨hs.deleted_created, hs.created_ok, fun h => by simp at h⟩
    rw [if_neg hd] at h
    split at h <;> cases h <;> exact ⟨hs.deleted_created, hs.created_ok, fun h => absurd h hd⟩

end Safety

theorem fileLoop_next_inv {c : LoopConfig} {env : Nat → FileAnswers} {names : List (List Char)}
    {i : Nat} {v v' : LoopVars} (hv : Inv c (fun _ => True) v)
    (h : fileLoop c env i names v = .next v') : Inv c (fun _ => True) v' := by
  have hs := fileLoop_safe (Q := fun _ => True) (fun _ _ => trivial) c env names i v
    (fun _ _ _ _ => ⟨fun _ => trivial, fun _ _ => trivial⟩) hv
  rwa [h] at hs

/-- The run lemma: from a state that keeps the loop invariant, over the files from index `i`,
`retval` only grows, a `retval` of 0 at the end means every named file was clean, and every
removed input is one of the files that may be removed. -/
theorem fileLoop_within (c : LoopConfig) (env : Nat → FileAnswers) :
    ∀ (names : List (List Char)) (i : Nat) (v : LoopVars), Inv c (fun _ => True) v →
    (fileLoop c env i names v).Within v
      (∀ k name, names.get? k = some name → name ≠ "-".toList → Clean c name (env (i + k)))
      (fun f => ∃ k, names.get? k = some f ∧ Removable c (env (i + k)) f)
  | [], i, v, _ => ⟨le_rfl, fun _ k name h => by simp at h, fun f hf => .inl hf⟩
  | name :: names, i, v, hv => by
    have hs := fileStep_within c v name (env i) hv.to_file_pending
    have hinv := fileStep_safe (Q := fun _ => True) (fun _ _ => trivial) c v name (env i)
      (fun _ => ⟨fun _ => trivial, fun _ _ => trivial⟩) hv
    simp only [fileLoop]
    cases h : fileStep c v name (env i) with
    | exit code v' =>
      rw [h] at hs
      exact ⟨hs.1, fun f hf => (hs.2 f hf).imp_right fun ⟨hf, hr⟩ => ⟨0, hf ▸ rfl, hf ▸ hr⟩⟩
    | next v₁ =>
      rw [h] at hs hinv
      refine (hs.trans (fileLoop_within c env names (i + 1) v₁ hinv)).mono ?_ ?_
      · rintro ⟨h0, hk⟩ (_ | k) n hk' hn
        · cases hk'
          exact h0 hn
        · rw [show i + (k + 1) = i + 1 + k by omega]
          exact hk k n hk' hn
      · rintro f (⟨rfl, hr⟩ | ⟨k, hk, hr⟩)
        · exact ⟨0, rfl, hr⟩
        · exact ⟨k + 1, hk, by rwa [show i + (k + 1) = i + 1 + k by omega]⟩

theorem closeOutput_within {s : Step} {v₀ v : LoopVars} {clean : Prop} {r : List Char → Prop}
    {final_close : Bool} {code : Nat} (hs : s.Within v₀ clean r)
    (h : closeOutput s final_close = .exit code v) :
    (code = 0 → clean) ∧ ∀ f ∈ v.removed, f ∈ v₀.removed ∨ r f := by
  cases s with
  | exit code' v' =>
    cases h
    exact ⟨fun h0 => absurd h0 (Nat.pos_iff_ne_zero.1 hs.1), hs.2⟩
  | next v' =>
    simp only [closeOutput] at h
    have hend : v.removed = v'.removed ∧ (code = 0 → v'.retval = 0) := by
      by_cases hd : v'.delete_output_on_interrupt = true
      · rw [if_pos hd] at h
        cases final_close <;> cases h <;> simp
      rw [if_neg hd] at h
      split at h <;> cases h <;> simp
    exact ⟨fun h0 => hs.2.1 (hend.2 h0), hend.1 ▸ hs.2.2⟩

theorem mainConfig_one_to_one (o : MainOptions) (args : List (List Char)) :
    (mainConfig o args).one_to_one = true ↔
      o.program_mode ≠ .test ∧ o.to_stdout = false ∧ o.default_output_filename = [] := by
  rw [one_to_one_iff]
  by_cases ht : o.program_mode = .test <;> cases hs : o.to_stdout <;> simp [mainConfig, ht, hs]

theorem runMain_exit {o : MainOptions} {args : List (List Char)} {tty_stdout : Bool}
    {env : Nat → FileAnswers} {final_close : Bool} {code : Nat} {v : LoopVars}
    (h : runMain o args tty_stdout env final_close = .exit code v) :
    (code = 1 ∧ v = ⟨0, 0, false, .none, [], false, [], [], []⟩) ∨
    closeOutput (fileLoop (mainConfig o args) env 0 (mainFiles args)
      (mainStart (mainConfig o args))) final_close = .exit code v := by
  unfold runMain at h
  simp only at h
  by_cases hl : o.program_mode = .list
  · rw [if_pos hl] at h; cases h
  rw [if_neg hl] at h
  split at h
  · cases h; exact .inl ⟨rfl, rfl⟩
  split at h
  · cases h; exact .inl ⟨rfl, rfl⟩
  exact .inr h

theorem mainStart_inv (c : LoopConfig) (Q : List Char → Prop) : Inv c Q (mainStart c) := by
  unfold mainStart
  split
  · rename_i hs
    exact ⟨nofun, fun ht => absurd ht (by simp [LoopConfig.to_file, hs.1]), nofun, nofun⟩
  · exact ⟨nofun, fun _ h => absurd rfl h, nofun, nofun⟩

theorem mainStart_removed (c : LoopConfig) : (mainStart c).removed = [] := by
  unfold mainStart; split <;> rfl

theorem fileLoop_append (c : LoopConfig) (env : Nat → FileAnswers) :
    ∀ (l₁ l₂ : List (List Char)) (i : Nat) (v : LoopVars),
    fileLoop c env i (l₁ ++ l₂) v =
      match fileLoop c env i l₁ v with
      | .next v' => fileLoop c env (i + l₁.length) l₂ v'
      | .exit code v' => .exit code v'
  | [], _, _, _ => rfl
  | name :: l₁, l₂, i, v => by
    simp only [List.cons_append, fileLoop, List.append_eq]
    cases fileStep c v name (env i) with
    | next v₁ =>
      dsimp only
      rw [fileLoop_append c env l₁ l₂, List.length_cons, show i + (l₁.length + 1) = i + 1 + l₁.length
        by omega]
    | exit code v₁ => rfl

theorem fileLoop_exit_split (c : LoopConfig) (env : Nat → FileAnswers) :
    ∀ (names : List (List Char)) (i : Nat) (v : LoopVars) {code : Nat} {v' : LoopVars},
    fileLoop c env i names v = .exit code v' →
    ∃ k name vk, names.get? k = some name ∧ fileLoop c env i (names.take k) v = .next vk ∧
      fileStep c vk name (env (i + k)) = .exit code v'
  | [], _, _, _, _, h => by cases h
  | name :: names, i, v, code, v', h => by
    simp only [fileLoop] at h
    cases hs : fileStep c v name (env i) with
    | exit code₁ v₁ =>
      rw [hs] at h
      exact ⟨0, name, v, rfl, rfl, hs.trans h⟩
    | next v₁ =>
      rw [hs] at h
      obtain ⟨k, name', vk, hk, hpre, hstep⟩ := fileLoop_exit_split c env names (i + 1) v₁ h
      refine ⟨k + 1, name', vk, hk, ?_, by rwa [show i + (k + 1) = i + 1 + k by omega]⟩
      simp only [List.take_succ_cons, fileLoop, hs, hpre]

theorem runMain_within (o : MainOptions) (args : List (List Char)) (tty_stdout : Bool)
    (env : Nat → FileAnswers) (final_close : Bool) {code : Nat} {v : LoopVars}
    (h : runMain o args tty_stdout env final_close = .exit code v) :
    (code = 0 → ∀ k name, (mainFiles args).get? k = some name →
      name ≠ "-".toList → Clean (mainConfig o args) name (env k)) ∧
    ∀ f ∈ v.removed, ∃ k, (mainFiles args).get? k = some f ∧
      Removable (mainConfig o args) (env k) f := by
  rcases runMain_exit h with ⟨rfl, rfl⟩ | h
  · simp
  have hend := closeOutput_within (fileLoop_within _ env _ 0 _ (mainStart_inv _ _)) h
  simpa only [Nat.zero_add, mainStart_removed, List.not_mem_nil, false_or] using hend

/-- An input file is removed only in a one-to-one run (no `--test`, `--stdout` or `--output`)
without `--keep` and not into volumes, and only after its own output file was created, the
input was read with result 0, and both were closed. -/
theorem main_removes_only_completed (o : MainOptions) (args : List (List Char))
    (tty_stdout : Bool) (env : Nat → FileAnswers) (final_close : Bool) (f : List Char)
    (hf : f ∈ (runMain o args tty_stdout env final_close).removed) :
    o.program_mode ≠ .test ∧ o.to_stdout = false ∧ o.default_output_filename = [] ∧
    o.keep_input_files = false ∧ (o.program_mode = .compress → o.volume_size = 0) ∧
    ∃ i, args.get? i = some f ∧ f ≠ "-".toList ∧ (env i).open_ok = true ∧
      (env i).fstat = some .regular ∧
      (env i).open_out = true ∧ (env i).result = 0 ∧ (env i).close_in = true ∧
      (env i).close_out = true := by
  cases h : runMain o args tty_stdout env final_close with
  | list => rw [h] at hf; cases hf
  | exit code v =>
    rw [h] at hf
    obtain ⟨k, hk, hn, hopen, hreg, hoo, hres, hci, hco, ho, hkeep, hvol⟩ :=
      (runMain_within o args tty_stdout env final_close h).2 f hf
    obtain ⟨hnt, hst, hdef⟩ := (mainConfig_one_to_one o args).1 ho
    have hargs : args ≠ [] := by
      rintro rfl
      cases k <;> simp [mainFiles] at hk
      exact hn hk.symm
    rw [mainFiles, if_neg hargs] at hk
    refine ⟨hnt, hst, hdef, hkeep, fun hc => ?_, k, hk, hn, hopen, hreg, hoo, hres, hci, hco⟩
    simpa [mainConfig, hc] using hvol

def decompressA : MainOptions := { MainOptions.init with program_mode := .decompress }

def goodAnswers : FileAnswers := ⟨true, some .regular, false, true, false, [], 0, true, true⟩

def volumesA : MainOptions := { MainOptions.init with volume_size := 100000 }

def switchedAnswers : FileAnswers := { goodAnswers with switches := [⟨true, true⟩] }

theorem main_removes_only_completed_lz :
    "a.lz".toList ∈ (runMain decompressA ["a.lz".toList] false (fun _ => goodAnswers) true).removed ∧
    decompressA.program_mode ≠ .test ∧ decompressA.to_stdout = false ∧
    decompressA.default_output_filename = [] ∧ decompressA.keep_input_files = false ∧
    (decompressA.program_mode = .compress → decompressA.volume_size = 0) ∧
    ∃ i, ["a.lz".toList].get? i = some "a.lz".toList ∧ "a.lz".toList ≠ "-".toList ∧
      goodAnswers.open_ok = true ∧ goodAnswers.fstat = some .regular ∧
      goodAnswers.open_out = true ∧ goodAnswers.result = 0 ∧
      goodAnswers.close_in = true ∧ goodAnswers.close_out = true :=
  have h : "a.lz".toList ∈
      (runMain decompressA ["a.lz".toList] false (fun _ => goodAnswers) true).removed := by decide
  ⟨h, main_removes_only_completed _ _ _ _ _ _ h⟩

/-- `main` exits with status 0 only if every named input was clean: not refused for its suffix,
opened, not a terminal, read with result 0 and closed, one-to-one its own output created, not a
terminal, and closed, and every volume switch succeeded. An exit from inside its loop has a
nonzero status, and `retval` never decreases from one pass to a later one. -/
theorem main_exit_zero_clean (o : MainOptions) (args : List (List Char)) (tty_stdout : Bool)
    (env : Nat → FileAnswers) (final_close : Bool) :
    (∀ v, runMain o args tty_stdout env final_close = .exit 0 v →
      ∀ k name, args.get? k = some name → name ≠ "-".toList →
        Clean (mainConfig o args) name (env k)) ∧
    (∀ code v, fileLoop (mainConfig o args) env 0 (mainFiles args)
      (mainStart (mainConfig o args)) = .exit code v → 0 < code) ∧
    (∀ n m v v', n ≤ m →
      fileLoop (mainConfig o args) env 0 ((mainFiles args).take n)
        (mainStart (mainConfig o args)) = .next v →
      fileLoop (mainConfig o args) env 0 ((mainFiles args).take m)
        (mainStart (mainConfig o args)) = .next v' → v.retval ≤ v'.retval) := by
  refine ⟨fun v h k name hk hn => ?_, fun code v h => ?_, fun n m v v' hnm hn hm => ?_⟩
  · have hargs : args ≠ [] := by rintro rfl; cases hk
    have := (runMain_within o args tty_stdout env final_close h).1 rfl k name
    rw [mainFiles, if_neg hargs] at this
    exact this hk hn
  · have hw := fileLoop_within (mainConfig o args) env (mainFiles args) 0 _ (mainStart_inv _ _)
    rw [h] at hw
    exact hw.1
  · /- the passes after the first `n` run from `v`, which keeps the loop invariant -/
    rw [show m = n + (m - n) by omega, List.take_add, fileLoop_append, hn] at hm
    dsimp only at hm
    have hw := fileLoop_within (mainConfig o args) env (((mainFiles args).drop n).take (m - n))
      (0 + ((mainFiles args).take n).length) v (fileLoop_next_inv (mainStart_inv _ _) hn)
    rw [hm] at hw
    exact hw.1

theorem main_exit_zero_clean_volume :
    runMain volumesA ["a".toList] false (fun _ => switchedAnswers) true =
      .exit 0 ⟨0, 0, false, .none, "a00002.lz".toList, false, [], [],
        ["a00001.lz".toList, "a00002.lz".toList]⟩ ∧
    ["a".toList].get? 0 = some "a".toList ∧ "a".toList ≠ "-".toList ∧
    Clean (mainConfig volumesA ["a".toList]) "a".toList switchedAnswers :=
  have h : runMain volumesA ["a".toList] false (fun _ => switchedAnswers) true =
      .exit 0 ⟨0, 0, false, .none, "a00002.lz".toList, false, [], [],
        ["a00001.lz".toList, "a00002.lz".toList]⟩ := rfl
  ⟨h, rfl, by decide, (main_exit_zero_clean _ _ _ _ _).1 _ h 0 _ rfl (by decide)⟩

/-- The names a run may create: with `--output`, the `--output` name, and with one output per
input, the output name of the input at index `k`, or a volume name `next_filename` derives from
one of them after `j` switches; `open_outstream` succeeded in the pass on the input at index
`k`. -/
def CreatedBy (c : LoopConfig) (args : List (List Char)) (env : Nat → FileAnswers)
    (f : List Char) : Prop :=
  ∃ k j, (env k).open_out = true ∧
    ((c.to_file = true ∧ f = (fun n => (nextFilename n).2)^[j] (toFileName c)) ∨
      (c.one_to_one = true ∧ ∃ name, args.get? k = some name ∧
        f = (fun n => (nextFilename n).2)^[j] (oneToOneName c name (extensionIndex name))))

theorem CreatedBy.nextFilename {c : LoopConfig} {args : List (List Char)}
    {env : Nat → FileAnswers} {f : List Char} (h : CreatedBy c args env f) :
    CreatedBy c args env (Names.nextFilename f).2 := by
  have hsucc (j x) := (Function.iterate_succ_apply' (fun n => (Names.nextFilename n).2) j x).symm
  obtain ⟨k, j, ho, ⟨ht, rfl⟩ | ⟨h1, name, hk, rfl⟩⟩ := h
  · exact ⟨k, j + 1, ho, .inl ⟨ht, hsucc j _⟩⟩
  · exact ⟨k, j + 1, ho, .inr ⟨h1, name, hk, hsucc j _⟩⟩

theorem createdBy_outputs (o : MainOptions) (args : List (List Char)) (env : Nat → FileAnswers)
    (k : Nat) (name : List Char)
    (hk : (mainFiles args).get? k = some name) (ho : (env k).open_out = true) :
    ((mainConfig o args).to_file = true →
      CreatedBy (mainConfig o args) args env (toFileName (mainConfig o args))) ∧
    ((mainConfig o args).one_to_one = true → name ≠ "-".toList → CreatedBy (mainConfig o args)
      args env (oneToOneName (mainConfig o args) name (extensionIndex name))) := by
  refine ⟨fun ht => ⟨k, 0, ho, .inl ⟨ht, rfl⟩⟩, fun h1 hn => ⟨k, 0, ho, .inr ⟨h1, name, ?_, rfl⟩⟩⟩
  unfold mainFiles at hk
  split at hk
  · cases k <;> simp_all
  · exact hk

theorem runMain_safe {o : MainOptions} {args : List (List Char)} {tty_stdout : Bool}
    {env : Nat → FileAnswers} {final_close : Bool} {code : Nat} {v : LoopVars}
    {Q : List Char → Prop} (hQn : ∀ f, Q f → Q (nextFilename f).2)
    (hQ : ∀ k name, (mainFiles args).get? k = some name → (env k).open_out = true →
        ((mainConfig o args).to_file = true → Q (toFileName (mainConfig o args))) ∧
        ((mainConfig o args).one_to_one = true → name ≠ "-".toList →
          Q (oneToOneName (mainConfig o args) name (extensionIndex name))))
    (h : runMain o args tty_stdout env final_close = .exit code v) :
    (∀ f ∈ v.deleted, f ∈ v.created) ∧ ∀ f ∈ v.created, Q f := by
  rcases runMain_exit h with ⟨-, rfl⟩ | h
  · simp
  have hs := closeOutput_safe (fileLoop_safe hQn _ env _ 0 _
    (fun k name hk ho => hQ k name hk (by rwa [Nat.zero_add] at ho)) (mainStart_inv _ _)) h
  exact ⟨hs.1, hs.2.1⟩

/-- `main` deletes only files this run created: every output file `cleanup_and_fail` removes is
one that `open_outstream` created in this run, and it is, with `--output`, the `--output` name,
and with one output per input, the output name of one of its input files, or a volume name
derived from it. -/
theorem main_deletes_only_created (o : MainOptions) (args : List (List Char))
    (tty_stdout : Bool) (env : Nat → FileAnswers) (final_close : Bool) (code : Nat) (v : LoopVars)
    (h : runMain o args tty_stdout env final_close = .exit code v) (f : List Char)
    (hf : f ∈ v.deleted) :
    f ∈ v.created ∧ ∃ k j, (env k).open_out = true ∧
      (((mainConfig o args).to_file = true ∧
          f = (fun n => (nextFilename n).2)^[j] (toFileName (mainConfig o args))) ∨
        ((mainConfig o args).one_to_one = true ∧ ∃ name, args.get? k = some name ∧
          f = (fun n => (nextFilename n).2)^[j]
            (oneToOneName (mainConfig o args) name (extensionIndex name)))) :=
  have hs := runMain_safe (fun _ => CreatedBy.nextFilename) (createdBy_outputs o args env) h
  ⟨hs.1 f hf, hs.2 f (hs.1 f hf)⟩

def volumeAnswers : FileAnswers := { goodAnswers with switches := [⟨true, true⟩, ⟨false, true⟩] }

theorem main_deletes_only_created_volume :
    runMain volumesA ["a".toList] false (fun _ => volumeAnswers) true =
      .exit 1 ⟨0, 0, false, .none, "a00002.lz".toList, false, [], ["a00002.lz".toList],
        ["a00001.lz".toList, "a00002.lz".toList]⟩ ∧
    "a00002.lz".toList ∈ ["a00002.lz".toList] ∧
    "a00002.lz".toList ∈ ["a00001.lz".toList, "a00002.lz".toList] ∧ ∃ k j, volumeAnswers.open_out = true ∧
      (((mainConfig volumesA ["a".toList]).to_file = true ∧
          "a00002.lz".toList = (fun n => (nextFilename n).2)^[j]
            (toFileName (mainConfig volumesA ["a".toList]))) ∨
        ((mainConfig volumesA ["a".toList]).one_to_one = true ∧
          ∃ name, ["a".toList].get? k = some name ∧
            "a00002.lz".toList = (fun n => (nextFilename n).2)^[j]
              (oneToOneName (mainConfig volumesA ["a".toList]) name (extensionIndex name)))) :=
  have h : runMain volumesA ["a".toList] false (fun _ => volumeAnswers) true =
      .exit 1 ⟨0, 0, false, .none, "a00002.lz".toList, false, [], ["a00002.lz".toList],
        ["a00001.lz".toList, "a00002.lz".toList]⟩ := rfl
  ⟨h, by decide, main_deletes_only_created _ _ _ _ _ _ _ h _ (by decide)⟩

/-- `main` ends with an output file of its own still pending, neither closed nor deleted,
only when it compresses and stopped in the pass on one of its inputs, after every earlier pass
went on, and the output of that pass is a terminal. -/
theorem main_pending_only_tty (o : MainOptions) (args : List (List Char)) (tty_stdout : Bool)
    (env : Nat → FileAnswers) (final_close : Bool) (code : Nat) (v : LoopVars)
    (h : runMain o args tty_stdout env final_close = .exit code v)
    (hd : v.delete_output_on_interrupt = true) :
    o.program_mode = .compress ∧ ∃ k name vk, (mainFiles args).get? k = some name ∧
      (env k).tty_out = true ∧
      fileLoop (mainConfig o args) env 0 ((mainFiles args).take k)
        (mainStart (mainConfig o args)) = .next vk ∧
      fileStep (mainConfig o args) vk name (env k) = .exit code v := by
  rcases runMain_exit h with ⟨-, rfl⟩ | h
  · cases hd
  /- the run ended inside the loop: `closeOutput` leaves nothing pending -/
  have hloop : fileLoop (mainConfig o args) env 0 (mainFiles args)
      (mainStart (mainConfig o args)) = .exit code v := by
    cases hl : fileLoop (mainConfig o args) env 0 (mainFiles args)
        (mainStart (mainConfig o args)) with
    | exit => rw [hl] at h; cases h; rfl
    | next v' =>
      rw [hl] at h
      have hs : (Step.next v').Safe (mainConfig o args) (fun _ => True) False :=
        fileLoop_next_inv (mainStart_inv _ _) hl
      exact absurd hd fun hd => (closeOutput_safe hs h).2.2 hd
  /- the pass that exited ran from a state keeping the invariant -/
  obtain ⟨k, name, vk, hk, hpre, hstep⟩ := fileLoop_exit_split _ env _ 0 _ hloop
  have hs := fileStep_safe (fun _ _ => trivial) _ vk name (env (0 + k))
    (fun _ => ⟨fun _ => trivial, fun _ _ => trivial⟩) (fileLoop_next_inv (mainStart_inv _ _) hpre)
  rw [hstep] at hs
  rw [Nat.zero_add] at hstep
  obtain ⟨hm, ht⟩ := hs.2.2 hd
  exact ⟨hm, k, name, vk, hk, by rwa [Nat.zero_add] at ht, hpre, hstep⟩

def ttyAnswers : FileAnswers := { goodAnswers with tty_out := true }

def ttyEnd : LoopVars := ⟨1, 0, false, .file, "a.lz".toList, true, [], [], ["a.lz".toList]⟩

theorem main_pending_only_tty_a :
    runMain MainOptions.init ["a".toList] false (fun _ => ttyAnswers) true = .exit 1 ttyEnd ∧
    ttyEnd.delete_output_on_interrupt = true ∧ MainOptions.init.program_mode = .compress ∧
      ∃ k name vk, (mainFiles ["a".toList]).get? k = some name ∧ ttyAnswers.tty_out = true ∧
        fileLoop (mainConfig MainOptions.init ["a".toList]) (fun _ => ttyAnswers) 0
          ((mainFiles ["a".toList]).take k) (mainStart (mainConfig MainOptions.init ["a".toList])) =
            .next vk ∧
        fileStep (mainConfig MainOptions.init ["a".toList]) vk name ttyAnswers = .exit 1 ttyEnd :=
  have h : runMain MainOptions.init ["a".toList] false (fun _ => ttyAnswers) true =
      .exit 1 ttyEnd := rfl
  ⟨h, rfl, main_pending_only_tty _ _ _ _ _ _ _ h rfl⟩

/-- With `--test` or `--stdout` there are no output files: `main` creates, deletes and removes
no file, whatever the system answers. -/
theorem main_touches_no_file (o : MainOptions) (args : List (List Char)) (tty_stdout : Bool)
    (env : Nat → FileAnswers) (final_close : Bool) (code : Nat) (v : LoopVars)
    (hm : o.program_mode = .test ∨ o.to_stdout = true)
    (h : runMain o args tty_stdout env final_close = .exit code v) :
    v.created = [] ∧ v.deleted = [] ∧ v.removed = [] := by
  have hno : (mainConfig o args).to_file = false ∧ (mainConfig o args).one_to_one = false := by
    unfold LoopConfig.one_to_one LoopConfig.to_file mainConfig
    by_cases ht : o.program_mode = .test <;> rcases hm with hm | hm <;> simp_all
  have hs := runMain_safe (Q := fun _ => False) (fun _ h => h)
    (fun _ _ _ _ => ⟨fun ht => absurd ht (by simp [hno.1]), fun ho => absurd ho (by simp [hno.2])⟩)
    h
  refine ⟨List.eq_nil_iff_forall_not_mem.2 hs.2,
    List.eq_nil_iff_forall_not_mem.2 fun f hf => hs.2 f (hs.1 f hf),
    List.eq_nil_iff_forall_not_mem.2 fun f hf => ?_⟩
  obtain ⟨k, -, -, -, -, -, -, -, -, ho, -⟩ := (runMain_within o args tty_stdout env final_close h).2 f hf
  simp [hno.2] at ho

def decompressStdoutA : MainOptions := { decompressA with to_stdout := true }

def corruptStdoutEnd : LoopVars := ⟨2, 0, false, .stdout, [], false, [], [], []⟩

theorem main_touches_no_file_dc :
    runMain decompressStdoutA ["a.lz".toList] false (fun _ => { goodAnswers with result := 2 })
        true = .exit 2 corruptStdoutEnd ∧
    (decompressStdoutA.program_mode = .test ∨ decompressStdoutA.to_stdout = true) ∧
    corruptStdoutEnd.created = [] ∧ corruptStdoutEnd.deleted = [] ∧
      corruptStdoutEnd.removed = [] :=
  have h : runMain decompressStdoutA ["a.lz".toList] false
      (fun _ => { goodAnswers with result := 2 }) true = .exit 2 corruptStdoutEnd := rfl
  ⟨h, .inr rfl, main_touches_no_file _ _ _ _ _ _ _ (.inr rfl) h⟩

end FileLoop
end Lzip
