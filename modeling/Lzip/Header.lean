import Lzip.Basic
import Mathlib.Tactic.IntervalCases

/-! The 6-byte member header of lzip.h: magic, version and the coded dictionary size
(byte 5: a power of two in the low 5 bits, minus up to seven sixteenths of it in the
top 3 bits). -/
namespace Lzip

def lzipMagic : Fin 4 → UInt8 := ![0x4C, 0x5A, 0x49, 0x50]

structure LzipHeader where
  data : Fin 6 → UInt8

namespace LzipHeader

def checkMagic (h : LzipHeader) : Bool :=
  decide (∀ i : Fin 4, h.data (Fin.castLE (by decide) i) = lzipMagic i)

/-- True if the first `min(sz,4)` bytes are a prefix of the magic, and `sz > 0`. -/
def checkPrefix (h : LzipHeader) (sz : Nat) : Bool :=
  decide (∀ i : Fin 4, i.val < sz → h.data (Fin.castLE (by decide) i) = lzipMagic i) && 0 < sz

/-- The number of magic bytes in place. -/
def magicMatches (h : LzipHeader) : Nat :=
  (List.finRange 4).countP fun i => h.data (Fin.castLE (by decide) i) = lzipMagic i

/-- Two or three of the four magic bytes in place: a damaged magic. -/
def checkCorrupt (h : LzipHeader) : Bool := 1 < h.magicMatches && h.magicMatches < 4

def version (h : LzipHeader) : Nat := (h.data 4).toNat

def checkVersion (h : LzipHeader) : Bool := h.data 4 = 1

/-- The getter `dictionary_size()`. -/
def dictionarySize (h : LzipHeader) : Nat :=
  let b := (h.data 5).toNat
  let sz := 1 <<< (b &&& 0x1F)
  if sz > minDictionarySize then sz - sz / 16 * ((b >>> 5) &&& 7) else sz

/-- The loop `for( unsigned i = 7; i >= 1; --i )` of the setter: the first `i` whose
reduced size still holds `sz`. -/
def fractionLoop (base_size fraction sz : Nat) : List Nat → Option Nat
  | [] => none
  | i :: is => if base_size - i * fraction ≥ sz then some i else fractionLoop base_size fraction sz is

/-- The setter `dictionary_size( sz )`: `false` (header unchanged) for an invalid size. -/
def setDictionarySize (h : LzipHeader) (sz : Nat) : Bool × LzipHeader :=
  if !isvalidDs sz then (false, h) else
  let bits := realBits (sz - 1)
  let b5 :=
    if sz > minDictionarySize then
      let base_size := 1 <<< bits
      match fractionLoop base_size (base_size / 16) sz [7, 6, 5, 4, 3, 2, 1] with
      | some i => bits ||| (i <<< 5)
      | none => bits
    else bits
  (true, ⟨fun k => if k = 5 then UInt8.ofNat b5 else h.data k⟩)

def check (h : LzipHeader) : Bool :=
  h.checkMagic && h.checkVersion && isvalidDs h.dictionarySize

/-! ### The coded size is the least representable size at or above the request -/

theorem realBitsLoop_spec (k v : Nat) (hv : v < 2 ^ k) :
    v < 2 ^ realBitsLoop k v ∧ (0 < v → 2 ^ realBitsLoop k v ≤ 2 * v) := by
  induction k generalizing v with
  | zero => simp_all [realBitsLoop]
  | succ k ih =>
    by_cases h0 : v = 0
    · simp [realBitsLoop, h0]
    · have hdiv : v >>> 1 = v / 2 := Nat.shiftRight_eq_div_pow v 1
      have ⟨hlt, hle⟩ := ih (v >>> 1) (by rw [hdiv, Nat.pow_succ] at *; omega)
      simp only [realBitsLoop, Nat.pos_of_ne_zero h0, if_true, hdiv, Nat.pow_succ] at hlt hle ⊢
      refine ⟨by omega, fun _ => ?_⟩
      by_cases h1 : v / 2 = 0
      · rw [h1] at hle ⊢; cases k <;> simp [realBitsLoop] <;> omega
      · have := hle (by omega); omega

theorem realBits_pred_bounds (sz : Nat) (h1 : 2 ≤ sz) (h2 : sz ≤ 2 ^ 32) :
    sz ≤ 2 ^ realBits (sz - 1) ∧ 2 ^ realBits (sz - 1) < 2 * sz := by
  have := realBitsLoop_spec 32 (sz - 1) (by omega)
  unfold realBits; omega

theorem pow_eq_sixteen_mul (c : Nat) (hc : 4 ≤ c) : 2 ^ c = 16 * 2 ^ (c - 4) := by
  rw [show (16 : Nat) = 2 ^ 4 from rfl, ← Nat.pow_add]; congr 1; omega

theorem two_pow_le_iff {m n : Nat} : 2 ^ m ≤ 2 ^ n ↔ m ≤ n :=
  Nat.pow_le_pow_iff_right (by omega)

theorem dictionarySize_eq (h : LzipHeader) :
    ∃ c k, k < 8 ∧ h.dictionarySize =
      if 4096 < 2 ^ c then 16 * 2 ^ (c - 4) - 2 ^ (c - 4) * k else 2 ^ c := by
  refine ⟨(h.data 5).toNat &&& 0x1F, ((h.data 5).toNat >>> 5) &&& 7,
    Nat.lt_succ_of_le Nat.and_le_right, ?_⟩
  simp only [dictionarySize, Nat.one_shiftLeft, minDictionarySize_eq, gt_iff_lt]
  split_ifs with hc
  · have h4 : 4 ≤ (h.data 5).toNat &&& 0x1F := by
      by_contra hlt
      have := two_pow_le_iff.2 (show (h.data 5).toNat &&& 0x1F ≤ 3 by omega)
      omega
    rw [pow_eq_sixteen_mul _ h4, Nat.mul_div_cancel_left _ (by omega)]
  · rfl

theorem valid_dictionarySize (h : LzipHeader) (hv : isvalidDs h.dictionarySize) :
    h.dictionarySize = 4096 ∨ ∃ c k, 13 ≤ c ∧ k < 8 ∧
      h.dictionarySize = 16 * 2 ^ (c - 4) - 2 ^ (c - 4) * k := by
  obtain ⟨c, k, hk, he⟩ := dictionarySize_eq h
  simp only [isvalidDs, minDictionarySize_eq, maxDictionarySize_eq, Bool.and_eq_true,
    decide_eq_true_eq] at hv
  split_ifs at he with hc
  · refine .inr ⟨c, k, ?_, hk, he⟩
    by_contra hlt
    have := two_pow_le_iff.2 (show c ≤ 12 by omega)
    omega
  · left; omega

theorem fields_of_or : ∀ b < 32, ∀ i < 8,
    (b ||| i <<< 5) < 256 ∧ (b ||| i <<< 5) &&& 0x1F = b ∧ ((b ||| i <<< 5) >>> 5) &&& 7 = i := by
  decide

theorem fractionLoop_sorted (B F sz : Nat) (l : List Nat) (hs : l.Pairwise (· > ·)) :
    (∀ i, fractionLoop B F sz l = some i →
      i ∈ l ∧ sz ≤ B - i * F ∧ ∀ j ∈ l, i < j → B - j * F < sz) ∧
    (fractionLoop B F sz l = none → ∀ j ∈ l, B - j * F < sz) := by
  induction l with
  | nil => simp [fractionLoop]
  | cons a t ih =>
    obtain ⟨hsome, hnone⟩ := ih hs.of_cons
    have hgt : ∀ b ∈ t, a > b := fun _ hb => List.rel_of_pairwise_cons hs hb
    unfold fractionLoop
    by_cases ha : B - a * F ≥ sz
    · simp only [if_pos ha, Option.some.injEq, reduceCtorEq, false_implies, and_true]
      rintro i rfl
      refine ⟨List.mem_cons_self _ _, ha, fun j hj hij => ?_⟩
      rcases List.mem_cons.1 hj with rfl | hj
      · omega
      · have := hgt j hj; omega
    · simp only [if_neg ha]
      refine ⟨fun i hi => ?_, fun hn j hj => ?_⟩
      · obtain ⟨hmem, hfit, hmax⟩ := hsome i hi
        refine ⟨List.mem_cons_of_mem _ hmem, hfit, fun j hj hij => ?_⟩
        rcases List.mem_cons.1 hj with rfl | hj
        · omega
        · exact hmax j hj hij
      · rcases List.mem_cons.1 hj with rfl | hj
        · omega
        · exact hnone hn j hj

theorem fractionLoop_spec (q n : Nat) :
    let i := (fractionLoop (16 * q) (16 * q / 16) n [7, 6, 5, 4, 3, 2, 1]).getD 0
    i < 8 ∧ (n ≤ 16 * q → n ≤ 16 * q - i * q) ∧ ∀ j, i < j → j < 8 → 16 * q - j * q < n := by
  obtain ⟨hsome, hnone⟩ := fractionLoop_sorted (16 * q) q n [7, 6, 5, 4, 3, 2, 1] (by decide)
  simp only [Nat.mul_div_cancel_left q (by omega : 0 < 16)]
  cases hr : fractionLoop (16 * q) q n [7, 6, 5, 4, 3, 2, 1] with
  | none =>
    have hall := hnone hr
    exact ⟨by decide, by simp, fun j h1 h2 => hall j (by simp; omega)⟩
  | some i =>
    obtain ⟨hmem, hfit, hmax⟩ := hsome i hr
    simp only [List.mem_cons, List.mem_singleton, List.not_mem_nil, or_false] at hmem
    exact ⟨by simp; omega, fun _ => hfit, fun j h1 h2 => hmax j (by simp; omega) h1⟩

theorem setDictionarySize_large (h : LzipHeader) (n : Nat) (hn : isvalidDs n)
    (hbig : 4096 < n) :
    13 ≤ realBits (n - 1) ∧ realBits (n - 1) < 30 ∧
      n ≤ 2 ^ realBits (n - 1) ∧ 2 ^ realBits (n - 1) < 2 * n ∧
    ∃ i < 8, (h.setDictionarySize n).2.dictionarySize =
        16 * 2 ^ (realBits (n - 1) - 4) - i * 2 ^ (realBits (n - 1) - 4) ∧
      n ≤ 16 * 2 ^ (realBits (n - 1) - 4) - i * 2 ^ (realBits (n - 1) - 4) ∧
      ∀ j, i < j → j < 8 → 16 * 2 ^ (realBits (n - 1) - 4) - j * 2 ^ (realBits (n - 1) - 4) < n := by
  simp only [isvalidDs, minDictionarySize_eq, maxDictionarySize_eq, Bool.and_eq_true,
    decide_eq_true_eq] at hn
  obtain ⟨hlo, hhi⟩ := realBits_pred_bounds n (by omega) (by omega)
  set b := realBits (n - 1)
  have hb13 : 13 ≤ b := by
    by_contra hlt
    have := two_pow_le_iff.2 (show b ≤ 12 by omega)
    omega
  have hb30 : b < 30 := by
    by_contra hlt
    have := two_pow_le_iff.2 (show 30 ≤ b by omega)
    omega
  have h16 := pow_eq_sixteen_mul b (by omega)
  obtain ⟨hi8, hfit, hmax⟩ := fractionLoop_spec (2 ^ (b - 4)) n
  refine ⟨hb13, hb30, hlo, hhi, _, hi8, ?_, hfit (by omega), hmax⟩
  set i := (fractionLoop (16 * 2 ^ (b - 4)) (16 * 2 ^ (b - 4) / 16) n [7, 6, 5, 4, 3, 2, 1]).getD 0
  have hstore : (h.setDictionarySize n).2.data 5 = UInt8.ofNat (b ||| i <<< 5) := by
    simp only [setDictionarySize, isvalidDs, minDictionarySize_eq, maxDictionarySize_eq,
      show 4096 ≤ n ∧ n ≤ 536870912 from hn, decide_True, Bool.and_self, Bool.not_true,
      Bool.false_eq_true, if_false, gt_iff_lt, hbig, if_true, Nat.one_shiftLeft, h16, i]
    cases fractionLoop (16 * 2 ^ (b - 4)) (16 * 2 ^ (b - 4) / 16) n [7, 6, 5, 4, 3, 2, 1]
    · simp only [Option.getD_none, Nat.zero_shiftLeft, Nat.or_zero, b]
    · rfl
  obtain ⟨h256, hc, hk⟩ := fields_of_or b (by omega) i hi8
  simp only [dictionarySize, hstore, UInt8.toNat_ofNat_of_lt h256, hc, hk, Nat.one_shiftLeft,
    h16, minDictionarySize_eq, gt_iff_lt, Nat.mul_div_cancel_left _ (show 0 < 16 by omega)]
  rw [if_pos (by omega), Nat.mul_comm i]

/-- `v` is valid, at least `n`, and no header decodes to a valid size in `[n, v)`. -/
def LeastCoded (n v : Nat) : Prop :=
  isvalidDs v ∧ n ≤ v ∧
    ∀ h' : LzipHeader, isvalidDs h'.dictionarySize → n ≤ h'.dictionarySize → v ≤ h'.dictionarySize

/-- The setter accepts every valid size and codes the least size at or above it that any
byte 5 decodes to within the valid range. -/
theorem setDictionarySize_least (h : LzipHeader) (n : Nat) (hn : isvalidDs n) :
    (h.setDictionarySize n).1 = true ∧ LeastCoded n (h.setDictionarySize n).2.dictionarySize := by
  have hn' := hn
  simp only [isvalidDs, minDictionarySize_eq, maxDictionarySize_eq, Bool.and_eq_true,
    decide_eq_true_eq] at hn'
  have hok : (h.setDictionarySize n).1 = true := by simp [setDictionarySize, hn]
  by_cases hbig : 4096 < n
  · obtain ⟨hb13, hb30, hlo, hhi, i, hi8, hv, hfit, hmax⟩ := setDictionarySize_large h n hn hbig
    set b := realBits (n - 1)
    set q := 2 ^ (b - 4)
    have h16 := pow_eq_sixteen_mul b (by omega)
    have hq29 : 16 * q ≤ 2 ^ 29 := h16 ▸ two_pow_le_iff.2 (by omega)
    refine ⟨hok, ?_, by omega, fun h' hv' hn'' => ?_⟩
    · simp only [isvalidDs, hv, minDictionarySize_eq, maxDictionarySize_eq, Bool.and_eq_true,
        decide_eq_true_eq]
      omega
    rcases valid_dictionarySize h' hv' with hw | ⟨c, k, hc, hk, hw⟩
    · omega
    set p := 2 ^ (c - 4)
    have hpk : k * p ≤ 7 * p := Nat.mul_le_mul_right _ (by omega)
    rw [hw, hv, Nat.mul_comm p k]
    rw [hw, Nat.mul_comm p k] at hn''
    rcases Nat.lt_trichotomy c b with hcb | hcb | hcb
    · have : 2 * (16 * p) ≤ 16 * q := by
        rw [← pow_eq_sixteen_mul c (by omega), ← h16, ← Nat.pow_succ']
        exact two_pow_le_iff.2 (by omega)
      omega
    · have hpq : p = q := by simp only [p, q, hcb]
      rw [hpq] at hpk hn'' ⊢
      by_cases hki : k ≤ i
      · have := Nat.mul_le_mul_right q hki; omega
      · have := hmax k (by omega) hk; omega
    · have : 2 * q ≤ p := by
        rw [← Nat.pow_succ']; exact two_pow_le_iff.2 (by omega)
      omega
  · have hn4 : n = 4096 := by omega
    subst hn4
    have h5 : (h.setDictionarySize 4096).2.data 5 = 12 := rfl
    have hv : (h.setDictionarySize 4096).2.dictionarySize = 4096 := by
      simp only [dictionarySize, h5]; decide
    exact ⟨hok, by rw [hv]; decide, by omega, fun h' _ hle => by omega⟩

theorem setDictionarySize_least_5000 :
    isvalidDs 5000 ∧ ((⟨fun _ => 0⟩ : LzipHeader).setDictionarySize 5000).1 = true ∧
      LeastCoded 5000 ((⟨fun _ => 0⟩ : LzipHeader).setDictionarySize 5000).2.dictionarySize :=
  ⟨by decide, setDictionarySize_least ⟨fun _ => 0⟩ 5000 (by decide)⟩

example : ((⟨fun _ => 0⟩ : LzipHeader).setDictionarySize 65537).2.dictionarySize = 73728 := by
  decide

end LzipHeader

end Lzip
