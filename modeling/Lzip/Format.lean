import Lzip.Basic
import Lzip.Header

/-! `format_num3` of main.cc: a number in decimal, divided first by the largest power of
1024 (binary prefix `Ki` to `Qi`) or else of 1000 (SI prefix `k` to `Q`) that divides it,
with the digits of a number of five digits or more in groups of three separated by `_`.
The text is written backwards from the end of a 32-byte buffer, so each character written
moves `p` one place towards the start of the buffer; the model builds the text the same
way, by putting each character in front of the text written so far.

`format_ds` of main.cc, which prints a dictionary size for `lzip -lv` and the verbose header
line, divides by 1024 at most three times, while the number has more than four digits or the
division is exact; `snprintf` then writes `"%s%4u %sB"` into a 16-byte buffer. -/
namespace Lzip
namespace Format

def binaryPrefixes : List Char := "KMGTPEZYRQ".toList
def siPrefixes : List Char := "kMGTPEZYRQ".toList

/-- `num % 10 + '0'`. -/
def digitChar (d : Nat) : Char := Char.ofNat (d + 48)

/-- `for( int i = 0; i < n && num != 0 && num % base == 0; ++i )
{ num /= base; prefix = table[i]; }` over the entries of the table not tried yet: the
number left and the last prefix taken. -/
def prefixLoop (base : Nat) : List Char → Nat → Option Char → Nat × Option Char
  | [], num, pfx => (num, pfx)
  | c :: table, num, pfx =>
    if num ≠ 0 ∧ num % base = 0 then prefixLoop base table (num / base) (some c)
    else (num, pfx)

/-- The prefix stage of `format_num3`: binary first, then SI, for numbers above 1024; the
number left to print and the text written after its digits. -/
def scalePrefix (num : Nat) : Nat × List Char :=
  if num > 1024 then
    match prefixLoop 1024 binaryPrefixes num none with
    | (num, some pfx) => (num, [pfx, 'i'])
    | (num, none) =>
      match prefixLoop 1000 siPrefixes num none with
      | (num, some pfx) => (num, [pfx])
      | (num, none) => (num, [])
  else (num, [])

/-- The loop `*(--p) = num % 10 + '0'; num /= 10; if( num == 0 ) break;
if( split && ++i >= 3 ) { i = 0; *(--p) = '_'; }`. `i` counts the digits since the last
`_`; `fuel` bounds the passes, and the loop ends by itself once `num` is 0. -/
def digitLoop (split : Bool) : Nat → Nat → Nat → List Char → List Char
  | 0, _, _, text => text
  | fuel + 1, i, num, text =>
    let text := digitChar (num % 10) :: text
    if num / 10 = 0 then text
    else if split = true ∧ 3 ≤ i + 1 then digitLoop split fuel 0 (num / 10) ('_' :: text)
    else digitLoop split fuel (if split then i + 1 else i) (num / 10) text

/-- `format_num3( num )`: the text from `p` to the terminator. -/
def formatNum3 (num : Nat) : List Char :=
  let (num, text) := scalePrefix num
  digitLoop (decide (num ≥ 10000)) (num + 1) 0 num text

example : formatNum3 100000 = "100k".toList := by decide
example : formatNum3 2251799813685248 = "2Pi".toList := by decide
example : formatNum3 123456789 = "123_456_789".toList := by decide

/-! ### Reading the text back -/

def isGroupChar (c : Char) : Bool := c.isDigit || c == '_'

def readDigit (v : Nat) (c : Char) : Nat := if c = '_' then v else 10 * v + (c.toNat - 48)

/-- The multiplier a prefix text stands for: a binary prefix with `i`, or an SI prefix. -/
def prefixValue : List Char → Nat
  | [] => 1
  | [c] => 1000 ^ (siPrefixes.indexOf c + 1)
  | [c, 'i'] => 1024 ^ (binaryPrefixes.indexOf c + 1)
  | _ => 0

/-- The number a text of `format_num3` shows: its digits with the separators skipped, times
the multiplier of the prefix after them. -/
def readNum3 (text : List Char) : Nat :=
  let body := text.takeWhile isGroupChar
  body.foldl readDigit 0 * prefixValue (text.drop body.length)

theorem digitChar_spec : ∀ d < 10,
    (digitChar d).toNat = d + 48 ∧ isGroupChar (digitChar d) = true ∧ digitChar d ≠ '_' := by
  decide

theorem readDigit_digitChar (v d : Nat) (hd : d < 10) : readDigit v (digitChar d) = 10 * v + d := by
  obtain ⟨hn, -, hu⟩ := digitChar_spec d hd
  rw [readDigit, if_neg hu, hn, Nat.add_sub_cancel]

theorem digitLoop_value (split : Bool) : ∀ (fuel i num : Nat) (text : List Char), num < fuel →
    ∃ D, digitLoop split fuel i num text = D ++ text ∧ (∀ c ∈ D, isGroupChar c = true) ∧
      D.foldl readDigit 0 = num
  | 0, _, _, _, h => absurd h (Nat.not_lt_zero _)
  | fuel + 1, i, num, text, h => by
    have hd := digitChar_spec (num % 10) (Nat.mod_lt _ (by omega))
    have hdig := readDigit_digitChar (num / 10) (num % 10) (Nat.mod_lt _ (by omega))
    have hnum : 10 * (num / 10) + num % 10 = num := Nat.div_add_mod num 10
    simp only [digitLoop]
    by_cases h0 : num / 10 = 0
    · rw [if_pos h0]
      refine ⟨[digitChar (num % 10)], rfl, by simpa using hd.2.1, ?_⟩
      have := readDigit_digitChar 0 (num % 10) (Nat.mod_lt _ (by omega))
      simp only [List.foldl_cons, List.foldl_nil, this]
      omega
    rw [if_neg h0]
    by_cases hs : split = true ∧ 3 ≤ i + 1
    · rw [if_pos hs]
      obtain ⟨D, hD, hc, hv⟩ := digitLoop_value split fuel 0 (num / 10)
        ('_' :: digitChar (num % 10) :: text) (by omega)
      refine ⟨D ++ ['_', digitChar (num % 10)], by simp [hD], ?_, ?_⟩
      · simp only [List.mem_append, List.mem_cons, List.mem_singleton, List.not_mem_nil, or_false]
        rintro c (hcD | rfl | rfl)
        exacts [hc c hcD, rfl, hd.2.1]
      · have hsep : readDigit (num / 10) '_' = num / 10 := if_pos rfl
        rw [List.foldl_append, hv, List.foldl_cons, List.foldl_cons, List.foldl_nil, hsep, hdig,
          hnum]
    · rw [if_neg hs]
      obtain ⟨D, hD, hc, hv⟩ := digitLoop_value split fuel (if split then i + 1 else i)
        (num / 10) (digitChar (num % 10) :: text) (by omega)
      refine ⟨D ++ [digitChar (num % 10)], by simp [hD], ?_, ?_⟩
      · simp only [List.mem_append, List.mem_singleton]
        rintro c (hcD | rfl)
        exacts [hc c hcD, hd.2.1]
      · rw [List.foldl_append, hv, List.foldl_cons, List.foldl_nil, hdig, hnum]

theorem digitLoop_length (split : Bool) : ∀ (fuel i num m : Nat) (text : List Char),
    num < 10 ^ m → 0 < m →
    (digitLoop split fuel i num text).length ≤
      text.length + m + (if split then (m + i - 1) / 3 else 0)
  | 0, _, _, _, _, _, _ => by simp only [digitLoop]; omega
  | fuel + 1, i, num, m, text, hm, hm0 => by
    simp only [digitLoop]
    by_cases h0 : num / 10 = 0
    · rw [if_pos h0]; simp only [List.length_cons]; omega
    rw [if_neg h0]
    obtain ⟨m, rfl⟩ : ∃ m', m = m' + 1 := ⟨m - 1, by omega⟩
    have hm' : num / 10 < 10 ^ m := by
      rw [Nat.div_lt_iff_lt_mul (by omega), ← Nat.pow_succ]; exact hm
    have hm1 : 0 < m := by
      rcases Nat.eq_zero_or_pos m with rfl | h
      · simp at hm'; omega
      · exact h
    by_cases hs : split = true ∧ 3 ≤ i + 1
    · rw [if_pos hs]
      have := digitLoop_length split fuel 0 (num / 10) m
        ('_' :: digitChar (num % 10) :: text) hm' hm1
      simp only [List.length_cons] at this ⊢
      rw [if_pos hs.1] at this ⊢
      omega
    · rw [if_neg hs]
      have := digitLoop_length split fuel (if split then i + 1 else i) (num / 10) m
        (digitChar (num % 10) :: text) hm' hm1
      simp only [List.length_cons] at this ⊢
      cases split <;> simp only [if_true, if_false, Bool.false_eq_true] at this ⊢ <;> omega

theorem prefixLoop_spec (base : Nat) : ∀ (table : List Char) (num : Nat) (pfx : Option Char),
    prefixLoop base table num pfx = (num, pfx) ∨
      ∃ j < table.length, base ^ (j + 1) ∣ num ∧
        prefixLoop base table num pfx = (num / base ^ (j + 1), table[j]?)
  | [], _, _ => .inl rfl
  | c :: table, num, pfx => by
    rw [prefixLoop]
    split_ifs with h
    · refine .inr ?_
      have hb : base ∣ num := Nat.dvd_of_mod_eq_zero h.2
      rcases prefixLoop_spec base table (num / base) (some c) with he | ⟨j, hj, hdvd, he⟩
      · exact ⟨0, by simp, by simpa using hb, by simpa using he⟩
      · refine ⟨j + 1, by simpa using hj, ?_, ?_⟩
        · rw [Nat.pow_succ']
          exact Nat.mul_dvd_of_dvd_div hb hdvd
        · rw [he, Nat.div_div_eq_div_mul, ← Nat.pow_succ', List.getElem?_cons_succ]
    · exact .inl rfl

theorem binaryPrefixes_indexOf : ∀ j < 10,
    binaryPrefixes.indexOf (binaryPrefixes.getD j ' ') = j ∧ binaryPrefixes.length = 10 := by
  decide

theorem siPrefixes_indexOf : ∀ j < 10,
    siPrefixes.indexOf (siPrefixes.getD j ' ') = j ∧ siPrefixes.length = 10 ∧
      isGroupChar (siPrefixes.getD j ' ') = false ∧ isGroupChar (binaryPrefixes.getD j ' ') = false := by
  decide

theorem prefixLoop_value {base : Nat} {table : List Char} {num num' : Nat} {c : Char}
    (hlen : table.length = 10) (he : prefixLoop base table num none = (num', some c)) :
    ∃ j < 10, table.getD j ' ' = c ∧ num' * base ^ (j + 1) = num := by
  rcases prefixLoop_spec base table num none with h | ⟨j, hj, hdvd, h⟩
  · rw [h] at he; cases he
  · rw [h, Prod.mk.injEq] at he
    obtain ⟨rfl, hc⟩ := he
    refine ⟨j, hlen ▸ hj, ?_, Nat.div_mul_cancel hdvd⟩
    rw [List.getD_eq_getElem?_getD, hc, Option.getD_some]

theorem prefixLoop_none {base : Nat} {table : List Char} {num num' : Nat}
    (he : prefixLoop base table num none = (num', none)) : num' = num := by
  rcases prefixLoop_spec base table num none with h | ⟨j, hj, -, h⟩
  · rw [h] at he; exact (Prod.mk.inj he).1.symm
  · rw [h, List.getElem?_eq_getElem hj] at he; exact absurd (Prod.mk.inj he).2 (by simp)

theorem scalePrefix_spec (num : Nat) :
    (scalePrefix num).1 * prefixValue (scalePrefix num).2 = num ∧ (scalePrefix num).1 ≤ num ∧
      (scalePrefix num).2.length ≤ 2 ∧ ∀ c ∈ (scalePrefix num).2, isGroupChar c = false := by
  unfold scalePrefix
  split_ifs with hbig
  swap
  · simp [prefixValue]
  split
  · next num' c hb =>
    obtain ⟨j, hj, rfl, hv⟩ := prefixLoop_value (binaryPrefixes_indexOf 0 (by decide)).2 hb
    obtain ⟨hidx, -⟩ := binaryPrefixes_indexOf j hj
    obtain ⟨-, -, -, hgc⟩ := siPrefixes_indexOf j hj
    have := Nat.le_mul_of_pos_right num' (Nat.pos_pow_of_pos (j + 1) (by omega : 0 < 1024))
    refine ⟨by simp only [prefixValue, hidx]; omega, by omega, by simp, ?_⟩
    simp only [List.mem_cons, List.mem_singleton, List.not_mem_nil, or_false]
    rintro c (rfl | rfl)
    exacts [hgc, rfl]
  · next num' hb =>
    obtain rfl := prefixLoop_none hb
    split
    · next num'' c hs =>
      obtain ⟨j, hj, rfl, hv⟩ := prefixLoop_value (siPrefixes_indexOf 0 (by decide)).2.1 hs
      obtain ⟨hidx, -, hgc, -⟩ := siPrefixes_indexOf j hj
      have := Nat.le_mul_of_pos_right num'' (Nat.pos_pow_of_pos (j + 1) (by omega : 0 < 1000))
      exact ⟨by simp only [prefixValue, hidx]; omega, by omega, by simp, by simpa using hgc⟩
    · next num'' hs =>
      obtain rfl := prefixLoop_none hs
      simp [prefixValue]

/-- Every 64-bit number is written within the 32 bytes of `format_num3`'s buffer, the
terminator included, so `p` never moves before the buffer; and the text reads back as the
number: its digits, separators skipped, times the multiplier of its prefix. -/
theorem formatNum3_spec (num : Nat) (h : num < 2 ^ 64) :
    readNum3 (formatNum3 num) = num ∧ (formatNum3 num).length + 1 ≤ 32 := by
  obtain ⟨hval, hle, hlen, hgc⟩ := scalePrefix_spec num
  unfold formatNum3
  generalize scalePrefix num = r at hval hle hlen hgc
  obtain ⟨n, text⟩ := r
  dsimp only at hval hle hlen hgc ⊢
  obtain ⟨D, hD, hc, hv⟩ := digitLoop_value (decide (n ≥ 10000)) (n + 1) 0 n text (by omega)
  refine ⟨?_, ?_⟩
  · have htext : text.takeWhile isGroupChar = [] := by
      cases text with
      | nil => rfl
      | cons c cs => simp [List.takeWhile_cons, hgc c (List.mem_cons_self c cs)]
    rw [readNum3, hD, List.takeWhile_append_of_pos hc, htext, List.append_nil,
      List.drop_left, hv, hval]
  · have h20 : n < 10 ^ 20 := by
      have : (2 : Nat) ^ 64 < 10 ^ 20 := by decide
      omega
    have := digitLoop_length (decide (n ≥ 10000)) (n + 1) 0 n 20 text h20 (by omega)
    split_ifs at this <;> omega

theorem formatNum3_spec_max :
    18446744073709551615 < 2 ^ 64 ∧ readNum3 (formatNum3 18446744073709551615) = 18446744073709551615 ∧
      (formatNum3 18446744073709551615).length + 1 ≤ 32 :=
  ⟨by decide, formatNum3_spec _ (by decide)⟩

/-! ### `format_ds` -/

/-- The prefixes of `format_ds`. -/
def dsPrefixes : List (List Char) := ["Ki".toList, "Mi".toList, "Gi".toList]

/-- `for( int i = 0; i < n && ( num > 9999 || ( exact && num >= factor ) ); ++i )
{ num /= factor; if( num % factor != 0 ) exact = false; p = prefix[i]; np = ""; }` over the
prefixes not tried yet: the number, the prefix `p` and the padding `np` it leaves. -/
def dsLoop : List (List Char) → Nat → Bool → List Char → List Char →
    Nat × List Char × List Char
  | [], num, _, p, np => (num, p, np)
  | pfx :: table, num, exact, p, np =>
    if num > 9999 ∨ (exact = true ∧ num ≥ 1024) then
      dsLoop table (num / 1024) (exact && num / 1024 % 1024 == 0) pfx []
    else (num, p, np)

/-- The number, prefix and padding `format_ds( dictionary_size )` prints. -/
def dsParts (dictionary_size : Nat) : Nat × List Char × List Char :=
  dsLoop dsPrefixes dictionary_size (dictionary_size % 1024 == 0) [] "  ".toList

/-- `%4u`: the decimal digits of `num`, padded on the left with spaces to four columns. -/
def pad4 (num : Nat) : List Char :=
  List.replicate (4 - (Nat.toDigits 10 num).length) ' ' ++ Nat.toDigits 10 num

/-- `format_ds( dictionary_size )`: `snprintf( buf, 16, "%s%4u %sB", np, num, p )`, which
keeps at most 15 characters before the terminator. -/
def formatDs (dictionary_size : Nat) : List Char :=
  let (num, p, np) := dsParts dictionary_size
  (np ++ pad4 num ++ ' ' :: p ++ ['B']).take 15

example : formatDs 8388608 = "   8 MiB".toList := by decide
example : formatDs 6291456 = "   6 MiB".toList := by decide
example : formatDs 4608 = "  4608 B".toList := by decide

/-- The unit a text of `format_ds` ends in. -/
def dsUnit : List Char → Nat
  | ['B'] => 1
  | ['K', 'i', 'B'] => 1024
  | ['M', 'i', 'B'] => 1024 ^ 2
  | ['G', 'i', 'B'] => 1024 ^ 3
  | _ => 0

/-- The size a text of `format_ds` shows: the number after the padding, times its unit. -/
def readDs (text : List Char) : Nat :=
  let t := text.dropWhile (· = ' ')
  let body := t.takeWhile isGroupChar
  body.foldl readDigit 0 * dsUnit (t.drop (body.length + 1))

theorem digitChar_eq : ∀ d < 10, Nat.digitChar d = digitChar d := by decide

theorem toDigitsCore_eq_digitLoop : ∀ (fuel num : Nat) (text : List Char),
    Nat.toDigitsCore 10 fuel num text = digitLoop false fuel 0 num text
  | 0, _, _ => rfl
  | fuel + 1, num, text => by
    have hstep : Nat.toDigitsCore 10 (fuel + 1) num text =
        if num / 10 = 0 then Nat.digitChar (num % 10) :: text
        else Nat.toDigitsCore 10 fuel (num / 10) (Nat.digitChar (num % 10) :: text) := rfl
    rw [hstep]
    simp only [digitLoop, digitChar_eq (num % 10) (Nat.mod_lt _ (by omega)),
      Bool.false_eq_true, false_and, if_false]
    split
    · rfl
    · exact toDigitsCore_eq_digitLoop fuel (num / 10) _

theorem length_le_digitLoop (split : Bool) : ∀ (fuel i num : Nat) (text : List Char),
    text.length ≤ (digitLoop split fuel i num text).length
  | 0, _, _, _ => le_rfl
  | fuel + 1, i, num, text => by
    simp only [digitLoop]
    split
    · simp
    · split <;> exact le_trans (by simp only [List.length_cons]; omega) (length_le_digitLoop split fuel _ _ _)

theorem digitLoop_ne_nil (split : Bool) (fuel i num : Nat) (text : List Char) :
    text.length < (digitLoop split (fuel + 1) i num text).length := by
  simp only [digitLoop]
  split
  · simp
  · split <;> exact lt_of_lt_of_le (by simp only [List.length_cons]; omega) (length_le_digitLoop split fuel _ _ _)

theorem toDigits_spec (num : Nat) (h : num < 10000) :
    ∃ D, Nat.toDigits 10 num = D ∧ D ≠ [] ∧ D.length ≤ 4 ∧ (∀ c ∈ D, isGroupChar c = true) ∧
      D.foldl readDigit 0 = num := by
  obtain ⟨D, hD, hg, hv⟩ := digitLoop_value false (num + 1) 0 num [] (by omega)
  have hlen := digitLoop_length false (num + 1) 0 num 4 [] (by norm_num; omega) (by omega)
  have hpos := digitLoop_ne_nil false num 0 num []
  rw [show Nat.toDigits 10 num = Nat.toDigitsCore 10 (num + 1) num [] from rfl,
    toDigitsCore_eq_digitLoop, hD]
  rw [hD] at hlen hpos
  simp only [List.append_nil, List.length_nil, Bool.false_eq_true, if_false] at hlen hpos
  exact ⟨D, List.append_nil D, List.ne_nil_of_length_pos hpos, by omega, hg, hv⟩

theorem dsLoop_le : ∀ (table : List (List Char)) (num : Nat) (exact : Bool) (p np : List Char),
    (dsLoop table num exact p np).1 ≤ max 9999 (num / 1024 ^ table.length)
  | [], num, _, _, _ => by simp [dsLoop]
  | pfx :: table, num, exact, p, np => by
    simp only [dsLoop]
    split
    · have := dsLoop_le table (num / 1024) (exact && num / 1024 % 1024 == 0) pfx []
      rwa [Nat.div_div_eq_div_mul, ← Nat.pow_succ'] at this
    · rename_i h
      exact le_max_of_le_left (by omega)

theorem dsLoop_shape : ∀ (table : List (List Char)) (num : Nat) (exact : Bool) (p np : List Char),
    (dsLoop table num exact p np).2 = (p, np) ∨
      ((dsLoop table num exact p np).2.1 ∈ table ∧ (dsLoop table num exact p np).2.2 = [])
  | [], _, _, _, _ => .inl rfl
  | pfx :: table, num, exact, p, np => by
    simp only [dsLoop]
    split
    · rcases dsLoop_shape table (num / 1024) (exact && num / 1024 % 1024 == 0) pfx [] with
        h | ⟨hm, hn⟩
      · rw [h]; exact .inr ⟨List.mem_cons_self _ _, rfl⟩
      · exact .inr ⟨List.mem_cons_of_mem _ hm, hn⟩
    · exact .inl rfl

theorem dropWhile_space_append {S : List Char} (hS : ∀ c ∈ S, c = ' ') (x : Char)
    (hx : x ≠ ' ') (xs : List Char) : (S ++ x :: xs).dropWhile (· = ' ') = x :: xs := by
  induction S with
  | nil => simp [List.dropWhile, hx]
  | cons s S ih =>
    rw [List.forall_mem_cons] at hS
    simp [List.dropWhile, hS.1, ih hS.2]

theorem takeWhile_group_append {D : List Char} (hD : ∀ c ∈ D, isGroupChar c = true)
    (R : List Char) : (D ++ ' ' :: R).takeWhile isGroupChar = D := by
  induction D with
  | nil => rfl
  | cons d D ih =>
    rw [List.forall_mem_cons] at hD
    simp [List.takeWhile, hD.1, ih hD.2]

theorem formatDs_text (ds : Nat) (hds : ds < 2 ^ 32) :
    (formatDs ds).length = 8 ∧
      readDs (formatDs ds) = (dsParts ds).1 * dsUnit ((dsParts ds).2.1 ++ ['B']) := by
  have hle : (dsParts ds).1 ≤ max 9999 (ds / 1024 ^ dsPrefixes.length) :=
    dsLoop_le dsPrefixes ds (ds % 1024 == 0) [] "  ".toList
  have hshape : (dsParts ds).2 = ([], "  ".toList) ∨
      ((dsParts ds).2.1 ∈ dsPrefixes ∧ (dsParts ds).2.2 = []) :=
    dsLoop_shape dsPrefixes ds (ds % 1024 == 0) [] "  ".toList
  have hq : ds / 1024 ^ dsPrefixes.length < 4 := by
    simp only [dsPrefixes, List.length_cons, List.length_nil]; omega
  unfold formatDs
  generalize dsParts ds = P at hle hshape ⊢
  obtain ⟨num, p, np⟩ := P
  obtain ⟨D, hD, hne, hlen, hg, hv⟩ := toDigits_spec num (by simp only at hle; omega)
  obtain ⟨d, D', rfl⟩ := List.exists_cons_of_ne_nil hne
  simp only [List.length_cons] at hlen
  have hpn : (p = [] ∧ np = "  ".toList) ∨ (p ∈ dsPrefixes ∧ np = []) := by simpa using hshape
  /- the padding before the digits: `np` and the spaces of `%4u` -/
  have hS : ∀ c ∈ np ++ List.replicate (4 - (d :: D').length) ' ', c = ' ' := by
    rcases hpn with ⟨-, rfl⟩ | ⟨-, rfl⟩ <;> simp [List.mem_replicate]
  have hd : d ≠ ' ' := fun h => by simpa [h, isGroupChar] using hg d (List.mem_cons_self _ _)
  have hwidth : (np ++ pad4 num ++ ' ' :: p ++ ['B']).length = 8 := by
    have hpl : np.length + p.length = 2 := by
      rcases hpn with ⟨rfl, rfl⟩ | ⟨hp, rfl⟩
      · rfl
      · simp only [dsPrefixes, List.mem_cons, List.mem_singleton, List.not_mem_nil, or_false] at hp
        rcases hp with rfl | rfl | rfl <;> rfl
    simp only [pad4, hD, List.length_append, List.length_replicate, List.length_cons,
      List.length_nil]
    omega
  simp only
  rw [List.take_of_length_le (by omega), hwidth]
  refine ⟨rfl, ?_⟩
  have htext : np ++ pad4 num ++ ' ' :: p ++ ['B'] =
      (np ++ List.replicate (4 - (d :: D').length) ' ') ++ d :: (D' ++ ' ' :: (p ++ ['B'])) := by
    simp [pad4, hD]
  rw [readDs, htext, dropWhile_space_append hS d hd, ← List.cons_append,
    takeWhile_group_append hg, List.drop_append]
  rw [← hv]
  rfl

def dsExact (ds : Nat) : Bool := (dsParts ds).1 * dsUnit ((dsParts ds).2.1 ++ ['B']) == ds

theorem dsExact_coded : ∀ c < 30, ∀ k < 8, 13 ≤ c →
    dsExact (16 * 2 ^ (c - 4) - 2 ^ (c - 4) * k) = true := by
  decide

theorem dsParts_exact (h : LzipHeader) (hv : isvalidDs h.dictionarySize = true) :
    dsExact h.dictionarySize = true := by
  rcases LzipHeader.valid_dictionarySize h hv with he | ⟨c, k, hc, hk, he⟩
  · rw [he]; decide
  rw [he]
  refine dsExact_coded c ?_ k hk hc
  by_contra hc30
  have hp : 2 ^ 26 ≤ 2 ^ (c - 4) := Nat.pow_le_pow_right (by omega) (by omega)
  have hmul : 2 ^ (c - 4) * k ≤ 2 ^ (c - 4) * 7 := Nat.mul_le_mul_left _ (by omega)
  simp only [isvalidDs, maxDictionarySize_eq, minDictionarySize_eq, Bool.and_eq_true,
    decide_eq_true_eq] at hv
  omega

/-- For every 32-bit size, the text of `format_ds` is exactly eight characters: the two
columns of `np` go to the prefix once one is taken, and after at most three divisions by 1024
the number has at most four digits. So the 16-byte buffer never truncates it, and the columns
of the listing line up. -/
theorem formatDs_width (ds : Nat) (hds : ds < 2 ^ 32) : (formatDs ds).length = 8 :=
  (formatDs_text ds hds).1

theorem formatDs_width_max : 4294967295 < 2 ^ 32 ∧ (formatDs 4294967295).length = 8 :=
  ⟨by norm_num, formatDs_width _ (by norm_num)⟩

/-- For every member header with a valid dictionary size, the text `format_ds` prints for it
(in `lzip -lv` and in the verbose header line) reads back as exactly that size: the loop only
divides by 1024 where the division is exact. -/
theorem formatDs_dictionarySize (h : LzipHeader) (hv : isvalidDs h.dictionarySize = true) :
    readDs (formatDs h.dictionarySize) = h.dictionarySize := by
  have hlt : h.dictionarySize < 2 ^ 32 := by
    simp only [isvalidDs, maxDictionarySize_eq, minDictionarySize_eq, Bool.and_eq_true,
      decide_eq_true_eq] at hv
    omega
  rw [(formatDs_text _ hlt).2]
  simpa [dsExact] using dsParts_exact h hv

end Format
end Lzip
