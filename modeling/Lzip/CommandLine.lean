import Lzip.Header
import Lzip.Format
import Lzip.Compress

/-! The command line of main.cc: `getnum` and `get_dict_size`, which read the numerical
arguments, `set_mode`, the loop of `main` over the options the parser returns, and the
choice of encoder at the start of `compress`.

`strtoull` and `strtol` are the C library's: the model takes their answers as given, so
every result holds whatever they answer. The parser (`Arg_parser`, not among the sources)
is represented by the list of options it returns, each with its code, the name it was
given by and its argument. -/
namespace Lzip
namespace CommandLine

/-- The terminator `'\0'` that stands after the last character of an argument. -/
def nul : Char := Char.ofNat 0

/-- What `strtoull( arg, &tail, 0 )` answers: the `unsigned long long` value, how many
characters it read (`tail - arg`), and whether it set `errno` (to `ERANGE`). -/
structure Strtoull where
  value : Nat
  consumed : Nat
  erange : Bool
  value_lt : value < 2 ^ 64

/-- What `strtol( arg, &tail, 0 )` answers: the value and how many characters it read. -/
structure Strtol where
  value : Int
  consumed : Nat

/-- The two conversions of the C library, as functions of the argument. -/
structure CLib where
  strtoull : List Char → Strtoull
  strtol : List Char → Strtol

/-- How option processing leaves `main`. -/
inductive Exit
  -- `show_help(); return 0;`
  | help
  -- `show_version(); return 0;`
  | version
  -- `show_option_error( arg, msg, option_name ); std::exit( 1 );`
  | optionError (arg msg option_name : List Char)
  -- "Value out of limits [llimit,ulimit] in option 'option_name'." with the limits as `format_num3`
  -- writes them; `std::exit( 1 )`.
  | outOfLimits (arg llimit ulimit option_name : List Char)
  -- `show_error( msg, 0, true )`, then exit status 1.
  | usage (msg : String)
  -- `internal_error( msg )`: exit status 3.
  | internalError (msg : String)
deriving DecidableEq

instance decEqExcept {ε α : Type} [DecidableEq ε] [DecidableEq α] : DecidableEq (Except ε α)
  | .error a, .error b =>
    if h : a = b then isTrue (h ▸ rfl) else isFalse fun e => h (Except.error.inj e)
  | .ok a, .ok b => if h : a = b then isTrue (h ▸ rfl) else isFalse fun e => h (Except.ok.inj e)
  | .error _, .ok _ => isFalse fun e => Except.noConfusion e
  | .ok _, .error _ => isFalse fun e => Except.noConfusion e

def badNumMsg : List Char := "Bad or missing numerical argument in".toList
def badMultiplierMsg : List Char := "Bad multiplier in numerical argument of".toList

/-! ### `getnum` -/

/-- The `switch( tail[0] )` of `getnum`: the exponent of the multiplier, 0 for a bad one. -/
def exponentOf (c : Char) (factor : Nat) : Nat :=
  match c with
  | 'Q' => 10
  | 'R' => 9
  | 'Y' => 8
  | 'Z' => 7
  | 'E' => 6
  | 'P' => 5
  | 'T' => 4
  | 'G' => 3
  | 'M' => 2
  | 'K' => if factor = 1024 then 1 else 0
  | 'k' => if factor = 1000 then 1 else 0
  | _ => 0

/-- `for( int i = 0; i < exponent; ++i ) { if( ulimit / factor >= result ) result *= factor;
else { errno = ERANGE; break; } }` in `unsigned long long`: the result and whether `errno`
was set. -/
def multiplyLoop (ulimit factor : Nat) : Nat → Nat → Nat × Bool
  | 0, result => (result, false)
  | i + 1, result =>
    if ulimit / factor ≥ result then multiplyLoop ulimit factor i (result * factor % 2 ^ 64)
    else (result, true)

/-- `getnum( arg, option_name, llimit, ulimit )`, given what `strtoull` answers for `arg`. -/
def getnum (r : Strtoull) (arg option_name : List Char) (llimit ulimit : Nat) :
    Except Exit Nat :=
  if r.consumed = 0 then .error (.optionError arg badNumMsg option_name)
  else
    let tail := arg.drop r.consumed
    let scaled : Except Exit (Nat × Bool) :=
      if r.erange = false ∧ tail.getD 0 nul ≠ nul then
        let factor := if tail.getD 1 nul = 'i' then 1024 else 1000
        let exponent := exponentOf (tail.getD 0 nul) factor
        if exponent = 0 then .error (.optionError arg badMultiplierMsg option_name)
        else .ok (multiplyLoop ulimit factor exponent r.value)
      else .ok (r.value, r.erange)
    match scaled with
    | .error e => .error e
    | .ok (result, erange) =>
      if erange = true ∨ result < llimit ∨ ulimit < result then
        .error (.outOfLimits arg (Format.formatNum3 llimit) (Format.formatNum3 ulimit) option_name)
      else .ok result

/-- The multiplier of a suffix, as the comment of `getnum` lists the formats (`k`, `Ki`,
and `M` to `Q` with or without `i`); `none` for a bad one. -/
def suffixMultiplier (tail : List Char) : Option Nat :=
  if tail.getD 0 nul = nul then some 1
  else
    let factor := if tail.getD 1 nul = 'i' then 1024 else 1000
    let exponent := exponentOf (tail.getD 0 nul) factor
    if exponent = 0 then none else some (factor ^ exponent)

/-- `getnum` in exact arithmetic: the number read times the multiplier of its suffix,
checked against the limits. -/
def getnumExact (r : Strtoull) (arg option_name : List Char) (llimit ulimit : Nat) :
    Except Exit Nat :=
  if r.consumed = 0 then .error (.optionError arg badNumMsg option_name)
  else if r.erange then
    .error (.outOfLimits arg (Format.formatNum3 llimit) (Format.formatNum3 ulimit) option_name)
  else
    match suffixMultiplier (arg.drop r.consumed) with
    | none => .error (.optionError arg badMultiplierMsg option_name)
    | some m =>
      if r.value * m < llimit ∨ ulimit < r.value * m then
        .error (.outOfLimits arg (Format.formatNum3 llimit) (Format.formatNum3 ulimit) option_name)
      else .ok (r.value * m)

theorem multiplyLoop_spec {ulimit factor : Nat} (hu : ulimit < 2 ^ 64) (hf : 0 < factor) :
    ∀ n result, result < 2 ^ 64 →
      multiplyLoop ulimit factor n result = (result * factor ^ n, false) ∨
        (multiplyLoop ulimit factor n result).2 = true ∧ ulimit < result * factor ^ n
  | 0, result, _ => .inl (by simp [multiplyLoop])
  | n + 1, result, hr => by
    rw [multiplyLoop]
    by_cases hle : ulimit / factor ≥ result
    · have hprod : result * factor ≤ ulimit := (Nat.le_div_iff_mul_le hf).1 hle
      rw [if_pos hle, Nat.mod_eq_of_lt (by omega), Nat.pow_succ', ← Nat.mul_assoc]
      exact multiplyLoop_spec hu hf n (result * factor) (by omega)
    · rw [if_neg hle]
      have hgt : ulimit < result * factor := (Nat.div_lt_iff_lt_mul hf).1 (by omega)
      have hpow : result * factor ≤ result * factor ^ (n + 1) := by
        rw [Nat.pow_succ', ← Nat.mul_assoc]
        exact Nat.le_mul_of_pos_right _ (Nat.pos_pow_of_pos n hf)
      exact .inr ⟨rfl, by omega⟩

/-- `getnum` computes the exact value: its multiplications never wrap, and it accepts
exactly the arguments whose number times the multiplier of the suffix lies within the
limits, failing with the message of the first check that fails otherwise. -/
theorem getnum_eq_exact (r : Strtoull) (arg option_name : List Char) (llimit ulimit : Nat)
    (hu : ulimit < 2 ^ 64) :
    getnum r arg option_name llimit ulimit = getnumExact r arg option_name llimit ulimit := by
  unfold getnum getnumExact
  by_cases h0 : r.consumed = 0
  · rw [if_pos h0, if_pos h0]
  rw [if_neg h0, if_neg h0]
  dsimp only
  cases he : r.erange
  · simp only [Bool.false_eq_true, if_false, true_and]
    unfold suffixMultiplier
    by_cases hn : (arg.drop r.consumed).getD 0 nul = nul
    · simp only [hn, ne_eq, not_true_eq_false, if_false, if_true, Nat.mul_one,
        Bool.false_eq_true, false_or]
    simp only [hn, ne_eq, not_false_eq_true, if_true, if_false]
    generalize hF : (if (arg.drop r.consumed).getD 1 nul = 'i' then 1024 else 1000) = F
    have hF0 : 0 < F := by rw [← hF]; split_ifs <;> omega
    by_cases hx : exponentOf ((arg.drop r.consumed).getD 0 nul) F = 0
    · rw [if_pos hx, if_pos hx]
    rw [if_neg hx, if_neg hx]
    rcases multiplyLoop_spec hu hF0 (exponentOf ((arg.drop r.consumed).getD 0 nul) F) r.value
      r.value_lt with h | ⟨hb, hgt⟩
    · rw [h]
      simp only [Bool.false_eq_true, false_or]
    · rcases hml : multiplyLoop ulimit F (exponentOf ((arg.drop r.consumed).getD 0 nul) F)
        r.value with ⟨v, b⟩
      rw [hml] at hb
      dsimp only at hb ⊢
      rw [hb, if_pos (.inl rfl), if_pos (.inr hgt)]
  · simp only [Bool.true_eq_false, false_and, if_false, if_true, true_or]

theorem getnum_eq_exact_kibi :
    (1048575 : Nat) < 2 ^ 64 ∧
      getnum ⟨128, 3, false, by decide⟩ "128Ki".toList "--member-size".toList 100000 1048575 =
        getnumExact ⟨128, 3, false, by decide⟩ "128Ki".toList "--member-size".toList 100000 1048575 :=
  ⟨by decide, getnum_eq_exact _ _ _ _ _ (by decide)⟩

example : (getnum ⟨128, 3, false, by decide⟩ "128Ki".toList "--member-size".toList 100000
    1048575).toOption = some 131072 := by
  decide

theorem getnum_bounds {r : Strtoull} {arg option_name : List Char} {llimit ulimit v : Nat}
    (h : getnum r arg option_name llimit ulimit = .ok v) : llimit ≤ v ∧ v ≤ ulimit := by
  unfold getnum at h
  split_ifs at h
  dsimp only at h
  split at h
  · cases h
  · split_ifs at h with hc
    cases h
    omega

/-! ### `get_dict_size`, `set_mode` and the options of `main` -/

/-- `get_dict_size( arg, option_name )`: a number of bits from 12 to 29 with nothing after
it gives `1 << bits`; anything else is read by `getnum` as a size within the limits. -/
def getDictSize (lib : CLib) (arg option_name : List Char) : Except Exit Nat :=
  let r := lib.strtol arg
  if (minDictionaryBits : Int) ≤ r.value ∧ r.value ≤ (maxDictionaryBits : Int) ∧
      arg.getD r.consumed nul = nul then
    .ok (1 <<< r.value.toNat)
  else getnum (lib.strtoull arg) arg option_name minDictionarySize maxDictionarySize

inductive Mode
  | compress
  | decompress
  | list
  | test
deriving DecidableEq, Repr

/-- `set_mode( program_mode, new_mode )`: a second, different operation is an error. -/
def setMode (program_mode new_mode : Mode) : Except Exit Mode :=
  if program_mode ≠ .compress ∧ program_mode ≠ new_mode then
    .error (.usage "Only one operation can be specified.")
  else .ok new_mode

/-- `Lzma_options`. -/
structure LzmaOptions where
  dictionary_size : Nat
  match_len_limit : Nat
deriving DecidableEq, Repr

/-- `option_mapping`: the parameters of the levels `-0` to `-9`. -/
def optionMapping : List LzmaOptions :=
  [⟨1 <<< 16, 16⟩, ⟨1 <<< 20, 5⟩, ⟨3 <<< 19, 6⟩, ⟨1 <<< 21, 8⟩, ⟨3 <<< 20, 12⟩,
    ⟨1 <<< 22, 20⟩, ⟨1 <<< 23, 36⟩, ⟨1 <<< 24, 68⟩, ⟨3 <<< 23, 132⟩, ⟨1 <<< 25, 273⟩]

def maxMemberSize : Nat := 0x0008000000000000
def maxVolumeSize : Nat := 0x4000000000000000

/-- The variables of `main` that the options set. -/
structure MainOptions where
  encoder_options : LzmaOptions
  member_size : Nat
  volume_size : Nat
  default_output_filename : List Char
  program_mode : Mode
  cl_opts : ClOptions
  force : Bool
  keep_input_files : Bool
  recompress : Bool
  to_stdout : Bool
  zero : Bool
  verbosity : Int
deriving DecidableEq, Repr

/-- Their values before the first option; `verbosity` is the global's initial 0. -/
def MainOptions.init : MainOptions where
  encoder_options := optionMapping.getD 6 ⟨0, 0⟩
  member_size := maxMemberSize
  volume_size := 0
  default_output_filename := []
  program_mode := .compress
  cl_opts := {}
  force := false
  keep_input_files := false
  recompress := false
  to_stdout := false
  zero := false
  verbosity := 0

/-- An option as the parser returns it: its code (a character; the options with a long
name only have codes from 256), the name it was given by, and its argument. -/
structure ParsedOption where
  code : Char
  parsed_name : List Char
  argument : List Char
deriving DecidableEq, Repr

def optEer : Char := Char.ofNat 256
def optLt : Char := Char.ofNat 257
def optMer : Char := Char.ofNat 258

/-- One pass of the `switch( code )` over the options. -/
def optionStep (lib : CLib) (o : MainOptions) (p : ParsedOption) : Except Exit MainOptions :=
  let arg := p.argument
  let pn := p.parsed_name
  -- case '0': ... case '9':
  if 48 ≤ p.code.toNat ∧ p.code.toNat ≤ 57 then
    .ok { o with zero := p.code = '0',
                 encoder_options := optionMapping.getD (p.code.toNat - 48) ⟨0, 0⟩ }
  else
    match p.code with
    | 'a' => .ok { o with cl_opts := { o.cl_opts with ignoreTrailing := false } }
    | 'b' => (getnum (lib.strtoull arg) arg pn 100000 maxMemberSize).map
        fun v => { o with member_size := v }
    | 'c' => .ok { o with to_stdout := true }
    | 'd' => (setMode o.program_mode .decompress).map fun m => { o with program_mode := m }
    | 'f' => .ok { o with force := true }
    | 'F' => .ok { o with recompress := true }
    | 'h' => .error .help
    | 'k' => .ok { o with keep_input_files := true }
    | 'l' => (setMode o.program_mode .list).map fun m => { o with program_mode := m }
    | 'm' => (getnum (lib.strtoull arg) arg pn minMatchLenLimit maxMatchLen).map
        fun v => { o with encoder_options := { o.encoder_options with match_len_limit := v },
                          zero := false }
    | 'n' => .ok o
    | 'o' => .ok (if arg = ['-'] then { o with to_stdout := true }
        else { o with default_output_filename := arg })
    | 'q' => .ok { o with verbosity := -1 }
    | 's' => (getDictSize lib arg pn).map
        fun v => { o with encoder_options := { o.encoder_options with dictionary_size := v },
                          zero := false }
    | 'S' => (getnum (lib.strtoull arg) arg pn 100000 maxVolumeSize).map
        fun v => { o with volume_size := v }
    | 't' => (setMode o.program_mode .test).map fun m => { o with program_mode := m }
    | 'v' => .ok (if o.verbosity < 4 then { o with verbosity := o.verbosity + 1 } else o)
    | 'V' => .error .version
    | code =>
      if code = optEer then .ok { o with cl_opts := { o.cl_opts with ignoreEmpty := false } }
      else if code = optLt then .ok { o with cl_opts := { o.cl_opts with looseTrailing := true } }
      else if code = optMer then .ok { o with cl_opts := { o.cl_opts with ignoreMarking := false } }
      else .error (.internalError "uncaught option.")

/-- The loop over the options; it stops at the first argument that is not an option
(code 0) and returns the arguments left, the file names. -/
def processOptions (lib : CLib) : MainOptions → List ParsedOption →
    Except Exit (MainOptions × List ParsedOption)
  | o, [] => .ok (o, [])
  | o, p :: ps =>
    if p.code = nul then .ok (o, p :: ps)
    else
      match optionStep lib o p with
      | .error e => .error e
      | .ok o => processOptions lib o ps

/-- The encoder `compress` builds. -/
inductive Encoder
  -- `FLZ_encoder`, for `-0`.
  | flz
  -- `LZ_encoder` with the dictionary size the header codes and the match length limit.
  | lz (dictionary_size match_len_limit : Nat)
deriving DecidableEq

/-- The start of `compress`: `header` is the uninitialized `Lzip_header`, whose setter
`dictionary_size( sz )` must accept the requested size. -/
def chooseEncoder (header : LzipHeader) (zero : Bool) (encoder_options : LzmaOptions) :
    Except Exit Encoder :=
  if zero then .ok .flz
  else
    let (ok, header) := header.setDictionarySize encoder_options.dictionary_size
    if ok = true ∧ minMatchLenLimit ≤ encoder_options.match_len_limit ∧
        encoder_options.match_len_limit ≤ maxMatchLen then
      .ok (.lz header.dictionarySize encoder_options.match_len_limit)
    else .error (.internalError "invalid argument to encoder.")

/-! ### Every run of the options leaves valid parameters -/

/-- What the variables the options set always satisfy. -/
structure OptionsOk (o : MainOptions) : Prop where
  dictionary_size : isvalidDs o.encoder_options.dictionary_size = true
  match_len_limit : minMatchLenLimit ≤ o.encoder_options.match_len_limit ∧
    o.encoder_options.match_len_limit ≤ maxMatchLen
  member_size : 100000 ≤ o.member_size ∧ o.member_size ≤ maxMemberSize
  volume_size : o.volume_size = 0 ∨ 100000 ≤ o.volume_size ∧ o.volume_size ≤ maxVolumeSize
  verbosity : -1 ≤ o.verbosity ∧ o.verbosity ≤ 4

theorem optionMapping_ok : ∀ i < 10, isvalidDs (optionMapping.getD i ⟨0, 0⟩).dictionary_size = true ∧
    minMatchLenLimit ≤ (optionMapping.getD i ⟨0, 0⟩).match_len_limit ∧
    (optionMapping.getD i ⟨0, 0⟩).match_len_limit ≤ maxMatchLen := by decide

theorem OptionsOk.init : OptionsOk MainOptions.init :=
  ⟨by decide, by decide, by decide, .inl rfl, by decide⟩

theorem map_eq_ok {ε α β : Type} {f : α → β} {x : Except ε α} {y : β} (h : x.map f = .ok y) :
    ∃ v, x = .ok v ∧ f v = y := by
  cases x with
  | error e => cases h
  | ok v => exact ⟨v, rfl, by cases h; rfl⟩

theorem getDictSize_valid {lib : CLib} {arg option_name : List Char} {v : Nat}
    (h : getDictSize lib arg option_name = .ok v) : isvalidDs v = true := by
  unfold getDictSize at h
  dsimp only at h
  split_ifs at h with hb
  · cases h
    obtain ⟨h1, h2, -⟩ := hb
    have hlo : 12 ≤ (lib.strtol arg).value.toNat := by simp only [minDictionaryBits] at h1; omega
    have hhi : (lib.strtol arg).value.toNat ≤ 29 := by simp only [maxDictionaryBits] at h2; omega
    simp only [isvalidDs, Nat.one_shiftLeft, minDictionarySize_eq, maxDictionarySize_eq,
      Bool.and_eq_true, decide_eq_true_eq]
    exact ⟨Nat.pow_le_pow_right (n := 2) (by omega) hlo, Nat.pow_le_pow_right (n := 2) (by omega) hhi⟩
  · obtain ⟨h1, h2⟩ := getnum_bounds h
    simp only [isvalidDs, h1, h2, decide_True, Bool.and_self]

theorem optionStep_ok {lib : CLib} {o o' : MainOptions} {p : ParsedOption} (hi : OptionsOk o)
    (h : optionStep lib o p = .ok o') : OptionsOk o' := by
  unfold optionStep at h
  dsimp only at h
  by_cases hd : 48 ≤ p.code.toNat ∧ p.code.toNat ≤ 57
  · rw [if_pos hd] at h
    cases h
    obtain ⟨h1, h2, h3⟩ := optionMapping_ok (p.code.toNat - 48) (by omega)
    exact { hi with dictionary_size := h1, match_len_limit := ⟨h2, h3⟩ }
  rw [if_neg hd] at h
  split at h
  all_goals first
    | (cases h; done)
    | (cases h; exact ⟨hi.1, hi.2, hi.3, hi.4, hi.5⟩)
    | (obtain ⟨v, -, rfl⟩ := map_eq_ok h; exact ⟨hi.1, hi.2, hi.3, hi.4, hi.5⟩)
    | skip
  · -- 'b'
    obtain ⟨v, hv, rfl⟩ := map_eq_ok h
    exact { hi with member_size := getnum_bounds hv }
  · -- 'm'
    obtain ⟨v, hv, rfl⟩ := map_eq_ok h
    exact { hi with match_len_limit := getnum_bounds hv }
  · -- 'o'
    split_ifs at h <;> cases h <;> exact ⟨hi.1, hi.2, hi.3, hi.4, hi.5⟩
  · -- 'q'
    cases h
    exact { hi with verbosity := by dsimp only; decide }
  · -- 's'
    obtain ⟨v, hv, rfl⟩ := map_eq_ok h
    exact { hi with dictionary_size := getDictSize_valid hv }
  · -- 'S'
    obtain ⟨v, hv, rfl⟩ := map_eq_ok h
    exact { hi with volume_size := .inr (getnum_bounds hv) }
  · -- 'v'
    have := hi.verbosity
    split_ifs at h with hv <;> cases h
    exacts [{ hi with verbosity := by dsimp only; omega }, hi]
  · -- the codes of long options only
    split_ifs at h <;> cases h <;> exact ⟨hi.1, hi.2, hi.3, hi.4, hi.5⟩

theorem processOptions_ok {lib : CLib} : ∀ {o : MainOptions} {ps : List ParsedOption}
    {o' : MainOptions} {rest : List ParsedOption},
    OptionsOk o → processOptions lib o ps = .ok (o', rest) → OptionsOk o'
  | _, [], _, _, hi, h => by cases h; exact hi
  | o, p :: ps, o', rest, hi, h => by
    rw [processOptions] at h
    by_cases h0 : p.code = nul
    · rw [if_pos h0] at h; cases h; exact hi
    rw [if_neg h0] at h
    split at h
    · cases h
    · next o₁ h₁ => exact processOptions_ok (optionStep_ok hi h₁) h

theorem chooseEncoder_ok {o : MainOptions} (hi : OptionsOk o) (header : LzipHeader) :
    ∃ enc, chooseEncoder header o.zero o.encoder_options = .ok enc := by
  unfold chooseEncoder
  by_cases hz : o.zero = true
  · exact ⟨.flz, by rw [if_pos hz]⟩
  rw [if_neg hz]
  have hset : (header.setDictionarySize o.encoder_options.dictionary_size).1 = true := by
    simp [LzipHeader.setDictionarySize, hi.dictionary_size]
  revert hset
  generalize header.setDictionarySize o.encoder_options.dictionary_size = r
  obtain ⟨ok, header'⟩ := r
  rintro (rfl : ok = true)
  exact ⟨_, if_pos ⟨rfl, hi.match_len_limit⟩⟩

/-- For every command line and every answer of the C library: when `main` goes on past
its options, the dictionary size is valid, the match length limit is within [5, 273], the
member size within [100000, 2^51], the volume size 0 or within [100000, 2^62], and the
verbosity within [-1, 4]; and `compress` never ends in
`internal_error( "invalid argument to encoder." )`, whatever bytes its header starts with. -/
theorem processOptions_valid (lib : CLib) (ps : List ParsedOption) (o : MainOptions)
    (rest : List ParsedOption) (h : processOptions lib .init ps = .ok (o, rest)) :
    OptionsOk o ∧ ∀ header, ∃ enc, chooseEncoder header o.zero o.encoder_options = .ok enc :=
  have hi := processOptions_ok OptionsOk.init h
  ⟨hi, chooseEncoder_ok hi⟩

def readsAll250000 : CLib :=
  ⟨fun _ => ⟨250000, 6, false, by decide⟩, fun _ => ⟨250000, 6⟩⟩

def volumeOptions : List ParsedOption :=
  [⟨'S', "volume-size".toList, "250000".toList⟩, ⟨'9', [], []⟩, ⟨nul, [], "file".toList⟩]

theorem processOptions_valid_volume :
    processOptions readsAll250000 .init volumeOptions =
      .ok ({ MainOptions.init with volume_size := 250000, encoder_options := ⟨1 <<< 25, 273⟩ },
        [⟨nul, [], "file".toList⟩]) ∧
    OptionsOk { MainOptions.init with volume_size := 250000, encoder_options := ⟨1 <<< 25, 273⟩ } ∧
    ∀ header, ∃ enc, chooseEncoder header false ⟨1 <<< 25, 273⟩ = .ok enc :=
  ⟨by decide, processOptions_valid readsAll250000 volumeOptions _ [⟨nul, [], "file".toList⟩]
    (by decide)⟩

/-- For every command line with a volume size and every run of an encoder that writes at
most what it is asked for, every volume `compress` writes, closed or current, holds at most
the volume size the options give: the options establish the loop's preconditions. -/
theorem main_volumes_within (lib : CLib) (ps : List ParsedOption) (o : MainOptions)
    (rest : List ParsedOption) (h : processOptions lib .init ps = .ok (o, rest))
    (hv : 0 < o.volume_size) (delete_output_on_interrupt : Bool)
    (its : List Compress.Iteration) (henc : ∀ it ∈ its, Compress.EncoderBounded it) :
    Compress.VolumesWithin ⟨o.member_size, o.volume_size, delete_output_on_interrupt⟩
      (Compress.compressLoop ⟨o.member_size, o.volume_size, delete_output_on_interrupt⟩ .init
        its).state := by
  have hi := processOptions_ok OptionsOk.init h
  have hm := hi.member_size
  have hvs := hi.volume_size.resolve_left (by omega)
  have hv' : minDictionarySize < o.volume_size := by simp only [minDictionarySize_eq]; omega
  have hrun := Compress.compressLoop_safe (a := ⟨o.member_size, o.volume_size,
    delete_output_on_interrupt⟩) (by simp only [minDictionarySize_eq]; omega) hv'
    (show o.volume_size < 2 ^ 64 by simp only [maxVolumeSize] at hvs; omega) its .init (Compress.headInv_init hv') henc
  generalize Compress.compressLoop _ .init its = p at hrun ⊢
  cases p with
  | next s => exact Compress.HeadInv.volumesWithin hrun
  | stop r m s => exact hrun

theorem main_volumes_within_volumeOptions :
    processOptions readsAll250000 .init volumeOptions =
      .ok ({ MainOptions.init with volume_size := 250000, encoder_options := ⟨1 <<< 25, 273⟩ },
        [⟨nul, [], "file".toList⟩]) ∧ 0 < 250000 ∧
    (∀ it ∈ Compress.fillingPasses, Compress.EncoderBounded it) ∧
    Compress.VolumesWithin ⟨maxMemberSize, 250000, true⟩
      (Compress.compressLoop ⟨maxMemberSize, 250000, true⟩ .init Compress.fillingPasses).state :=
  have hrun : processOptions readsAll250000 .init volumeOptions =
      .ok ({ MainOptions.init with volume_size := 250000, encoder_options := ⟨1 <<< 25, 273⟩ },
        [⟨nul, [], "file".toList⟩]) := by decide
  have henc : ∀ it ∈ Compress.fillingPasses, Compress.EncoderBounded it := by
    simp [Compress.fillingPasses, Compress.EncoderBounded]
  ⟨hrun, by decide, henc, main_volumes_within readsAll250000 volumeOptions _ _ hrun (by decide)
    true Compress.fillingPasses henc⟩

end CommandLine
end Lzip
