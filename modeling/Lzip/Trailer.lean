import Lzip.Basic

/-! The 20-byte member trailer of lzip.h: three little-endian fields (CRC at bytes 0-3,
data size at 4-11, member size at 12-19) and the consistency check between them, which
computes its two bounds in 64-bit unsigned arithmetic. -/
namespace Lzip

structure LzipTrailer where
  data : Fin 20 → UInt8

namespace LzipTrailer

/-- The getters' loop `for( i = hi; i >= lo; --i ) { tmp <<= 8; tmp += data[i]; }`, given the
indices from the top byte down. -/
def getField (t : LzipTrailer) (idx : List (Fin 20)) : Nat :=
  idx.foldl (fun tmp i => (tmp <<< 8) + (t.data i).toNat) 0

/-- The setters' loop `for( i = lo; i <= hi; ++i ) { data[i] = (uint8_t)v; v >>= 8; }`. -/
def setField (t : LzipTrailer) (idx : List (Fin 20)) (v : Nat) : LzipTrailer :=
  ⟨(idx.foldl (fun (acc : (Fin 20 → UInt8) × Nat) i =>
      (Function.update acc.1 i (UInt8.ofNat acc.2), acc.2 >>> 8)) (t.data, v)).1⟩

def dataCrc (t : LzipTrailer) : Nat := t.getField [3, 2, 1, 0]
def setDataCrc (t : LzipTrailer) (crc : Nat) : LzipTrailer := t.setField [0, 1, 2, 3] crc

def dataSize (t : LzipTrailer) : Nat := t.getField [11, 10, 9, 8, 7, 6, 5, 4]
def setDataSize (t : LzipTrailer) (sz : Nat) : LzipTrailer :=
  t.setField [4, 5, 6, 7, 8, 9, 10, 11] sz

def memberSize (t : LzipTrailer) : Nat := t.getField [19, 18, 17, 16, 15, 14, 13, 12]
def setMemberSize (t : LzipTrailer) (sz : Nat) : LzipTrailer :=
  t.setField [12, 13, 14, 15, 16, 17, 18, 19] sz

/-- `check_consistency`; `% 2 ^ 64` marks the `unsigned long long` operations that wrap. -/
def checkConsistency (t : LzipTrailer) : Bool :=
  let crc := t.dataCrc
  let dsize := t.dataSize
  if (crc == 0) != (dsize == 0) then false else
  let msize := t.memberSize
  if msize < minMemberSize then false else
  let mlimit := ((9 * dsize + 7) % 2 ^ 64 / 8 + minMemberSize) % 2 ^ 64
  if mlimit > dsize && msize > mlimit then false else
  let dlimit := (7090 * (msize - 26) % 2 ^ 64 + (2 ^ 64 - 1)) % 2 ^ 64
  if dlimit > msize && dsize > dlimit then false else true

theorem foldl_getField_lt (t : LzipTrailer) (idx : List (Fin 20)) (a m : Nat) (ha : a < 256 ^ m) :
    idx.foldl (fun tmp i => (tmp <<< 8) + (t.data i).toNat) a < 256 ^ (m + idx.length) := by
  induction idx generalizing a m with
  | nil => simpa using ha
  | cons i is ih =>
    rw [List.foldl_cons, List.length_cons, Nat.add_comm is.length 1, ← Nat.add_assoc]
    apply ih
    have : (t.data i).toNat < 256 := UInt8.toNat_lt_size _
    rw [Nat.shiftLeft_eq, Nat.pow_succ]
    have : a * 2 ^ 8 + 2 ^ 8 ≤ 256 ^ m * 256 := by
      rw [show (2 : Nat) ^ 8 = 256 from rfl, ← Nat.succ_mul]
      exact Nat.mul_le_mul_right _ ha
    omega

theorem dataCrc_lt (t : LzipTrailer) : t.dataCrc < 2 ^ 32 :=
  foldl_getField_lt t _ 0 0 (by decide)

theorem memberSize_lt (t : LzipTrailer) : t.memberSize < 2 ^ 64 :=
  foldl_getField_lt t _ 0 0 (by decide)

def smallTrailer : LzipTrailer :=
  ⟨![1, 0, 0, 0, 0xE8, 0x03, 0, 0, 0, 0, 0, 0, 100, 0, 0, 0, 0, 0, 0, 0]⟩

attribute [ext] LzipTrailer

theorem toNat_ofNat_byte (v : Nat) : (UInt8.ofNat v).toNat = v % 256 := rfl

theorem setField_cons (t : LzipTrailer) (i : Fin 20) (idx : List (Fin 20)) (v : Nat) :
    t.setField (i :: idx) v =
      (LzipTrailer.mk (Function.update t.data i (UInt8.ofNat v))).setField idx (v >>> 8) := rfl

theorem setField_data_of_not_mem (t : LzipTrailer) (idx : List (Fin 20)) (v : Nat) {k : Fin 20}
    (hk : k ∉ idx) : (t.setField idx v).data k = t.data k := by
  induction idx generalizing t v with
  | nil => rfl
  | cons i idx ih =>
    rw [setField_cons, ih _ _ (fun h => hk (.tail _ h))]
    exact Function.update_noteq (by rintro rfl; exact hk (List.mem_cons_self _ _)) _ _

theorem setField_data_of_mem (t t' : LzipTrailer) {idx : List (Fin 20)} (hn : idx.Nodup)
    (v : Nat) {k : Fin 20} (hk : k ∈ idx) : (t.setField idx v).data k = (t'.setField idx v).data k := by
  induction idx generalizing t t' v with
  | nil => cases hk
  | cons i idx ih =>
    obtain ⟨hi, hn⟩ := List.nodup_cons.1 hn
    rw [setField_cons, setField_cons]
    rcases List.mem_cons.1 hk with rfl | hk
    · rw [setField_data_of_not_mem _ _ _ hi, setField_data_of_not_mem _ _ _ hi]
      simp only [Function.update_same]
    · exact ih _ _ hn _ hk

theorem setField_comm (t : LzipTrailer) {idx idx' : List (Fin 20)} (hn : idx.Nodup)
    (hn' : idx'.Nodup) (hd : ∀ k ∈ idx, k ∉ idx') (v v' : Nat) :
    (t.setField idx v).setField idx' v' = (t.setField idx' v').setField idx v := by
  ext k : 2
  by_cases hk : k ∈ idx
  · rw [setField_data_of_not_mem _ _ _ (hd k hk)]
    exact setField_data_of_mem _ _ hn v hk
  by_cases hk' : k ∈ idx'
  · rw [setField_data_of_not_mem _ _ _ hk]
    exact setField_data_of_mem _ _ hn' v' hk'
  · rw [setField_data_of_not_mem _ _ _ hk', setField_data_of_not_mem _ _ _ hk,
      setField_data_of_not_mem _ _ _ hk, setField_data_of_not_mem _ _ _ hk']

theorem getField_congr {t t' : LzipTrailer} {idx : List (Fin 20)}
    (h : ∀ i ∈ idx, t.data i = t'.data i) : t.getField idx = t'.getField idx := by
  unfold getField
  generalize 0 = tmp
  induction idx generalizing tmp with
  | nil => rfl
  | cons i idx ih =>
    simp only [List.foldl_cons, h i (.head _)]
    exact ih (fun j hj => h j (.tail _ hj)) _

theorem getField_reverse_cons (t : LzipTrailer) (i : Fin 20) (idx : List (Fin 20)) :
    t.getField (i :: idx).reverse = t.getField idx.reverse * 256 + (t.data i).toNat := by
  simp only [getField, List.reverse_cons, List.foldl_append, List.foldl_cons, List.foldl_nil,
    Nat.shiftLeft_eq]

theorem getField_setField (t : LzipTrailer) {idx : List (Fin 20)} (hn : idx.Nodup) (v : Nat) :
    (t.setField idx v).getField idx.reverse = v % 256 ^ idx.length := by
  induction idx generalizing t v with
  | nil => simp [getField, Nat.mod_one]
  | cons i idx ih =>
    obtain ⟨hi, hn⟩ := List.nodup_cons.1 hn
    rw [getField_reverse_cons, setField_cons, ih _ hn, setField_data_of_not_mem _ _ _ hi]
    simp only [Function.update_same]
    rw [toNat_ofNat_byte, Nat.shiftRight_eq_div_pow, show (2 : Nat) ^ 8 = 256 from rfl,
      List.length_cons, pow_succ' 256, Nat.mod_mul]
    omega

theorem setField_getField (t : LzipTrailer) {idx : List (Fin 20)} (hn : idx.Nodup) :
    t.setField idx (t.getField idx.reverse) = t := by
  induction idx generalizing t with
  | nil => rfl
  | cons i idx ih =>
    obtain ⟨-, hn⟩ := List.nodup_cons.1 hn
    have hb : (t.data i).toNat < 256 := UInt8.toNat_lt_size _
    have hlow : UInt8.ofNat (t.getField (i :: idx).reverse) = t.data i := by
      apply UInt8.toNat.inj
      rw [toNat_ofNat_byte, getField_reverse_cons]
      omega
    have hhigh : t.getField (i :: idx).reverse >>> 8 = t.getField idx.reverse := by
      rw [getField_reverse_cons, Nat.shiftRight_eq_div_pow]
      omega
    rw [setField_cons, hlow, hhigh, Function.update_eq_self]
    exact ih t hn

theorem getField_setField_of_disjoint (t : LzipTrailer) {idx idx' : List (Fin 20)}
    (hd : ∀ k ∈ idx', k ∉ idx) (v : Nat) : (t.setField idx v).getField idx' = t.getField idx' :=
  getField_congr fun k hk => setField_data_of_not_mem _ _ _ (hd k hk)

/-- The three fields' setters, applied in any order to any trailer, make the getters return
exactly the values set; each setter changes only its own bytes; and writing back a getter's
value with the matching setter changes nothing. -/
theorem setters_getters (t : LzipTrailer) (crc d m : Nat) (hcrc : crc < 2 ^ 32)
    (hd : d < 2 ^ 64) (hm : m < 2 ^ 64) :
    (∀ ops : List (LzipTrailer → LzipTrailer),
      ops.Perm [(·.setDataCrc crc), (·.setDataSize d), (·.setMemberSize m)] →
      (ops.foldl (fun t op => op t) t).dataCrc = crc ∧
        (ops.foldl (fun t op => op t) t).dataSize = d ∧
        (ops.foldl (fun t op => op t) t).memberSize = m) ∧
    (∀ k : Fin 20, 4 ≤ k.val → (t.setDataCrc crc).data k = t.data k) ∧
    (∀ k : Fin 20, k.val < 4 ∨ 12 ≤ k.val → (t.setDataSize d).data k = t.data k) ∧
    (∀ k : Fin 20, k.val < 12 → (t.setMemberSize m).data k = t.data k) ∧
    t.setDataCrc t.dataCrc = t ∧ t.setDataSize t.dataSize = t ∧
    t.setMemberSize t.memberSize = t := by
  have n1 : [(0 : Fin 20), 1, 2, 3].Nodup := by decide
  have n2 : [(4 : Fin 20), 5, 6, 7, 8, 9, 10, 11].Nodup := by decide
  have n3 : [(12 : Fin 20), 13, 14, 15, 16, 17, 18, 19].Nodup := by decide
  have r1 : ∀ k : Fin 20, 4 ≤ k.val → k ∉ [(0 : Fin 20), 1, 2, 3] := by decide
  have r2 : ∀ k : Fin 20, k.val < 4 ∨ 12 ≤ k.val → k ∉ [(4 : Fin 20), 5, 6, 7, 8, 9, 10, 11] := by
    decide
  have r3 : ∀ k : Fin 20, k.val < 12 → k ∉ [(12 : Fin 20), 13, 14, 15, 16, 17, 18, 19] := by
    decide
  refine ⟨fun ops hops => ?_, fun k hk => setField_data_of_not_mem _ _ _ (r1 k hk),
    fun k hk => setField_data_of_not_mem _ _ _ (r2 k hk),
    fun k hk => setField_data_of_not_mem _ _ _ (r3 k hk),
    setField_getField t n1, setField_getField t n2, setField_getField t n3⟩
  have c12 (z : LzipTrailer) : (z.setDataCrc crc).setDataSize d = (z.setDataSize d).setDataCrc crc :=
    setField_comm z n1 n2 (by decide) _ _
  have c13 (z : LzipTrailer) :
      (z.setDataCrc crc).setMemberSize m = (z.setMemberSize m).setDataCrc crc :=
    setField_comm z n1 n3 (by decide) _ _
  have c23 (z : LzipTrailer) :
      (z.setDataSize d).setMemberSize m = (z.setMemberSize m).setDataSize d :=
    setField_comm z n2 n3 (by decide) _ _
  have hcomm : ∀ x ∈ ops, ∀ y ∈ ops, ∀ z : LzipTrailer, y (x z) = x (y z) := by
    simp only [hops.mem_iff, List.mem_cons, List.mem_singleton, List.not_mem_nil, or_false]
    rintro x (rfl | rfl | rfl) y (rfl | rfl | rfl) z
    exacts [rfl, c12 z, c13 z, (c12 z).symm, rfl, c23 z, (c13 z).symm, (c23 z).symm, rfl]
  rw [hops.foldl_eq' (fun x hx y hy z => hcomm x hx y hy z) t]
  simp only [List.foldl, dataCrc, dataSize, memberSize, setMemberSize, setDataSize, setDataCrc]
  refine ⟨?_, ?_, ?_⟩
  · rw [getField_setField_of_disjoint _ (by decide), getField_setField_of_disjoint _ (by decide)]
    exact (getField_setField t n1 crc).trans (Nat.mod_eq_of_lt hcrc)
  · rw [getField_setField_of_disjoint _ (by decide)]
    exact (getField_setField _ n2 d).trans (Nat.mod_eq_of_lt hd)
  · exact (getField_setField _ n3 m).trans (Nat.mod_eq_of_lt hm)

theorem setters_getters_reordered :
    (0xDEADBEEF : Nat) < 2 ^ 32 ∧ (2 ^ 64 - 1 : Nat) < 2 ^ 64 ∧ (2 ^ 63 : Nat) < 2 ^ 64 ∧
      ([(·.setMemberSize (2 ^ 63)), (·.setDataCrc 0xDEADBEEF), (·.setDataSize (2 ^ 64 - 1))].foldl
        (fun t op => op t) smallTrailer).dataSize = 2 ^ 64 - 1 :=
  ⟨by decide, by decide, by decide,
    ((setters_getters smallTrailer 0xDEADBEEF (2 ^ 64 - 1) (2 ^ 63) (by decide) (by decide)
      (by decide)).1 _ ((List.Perm.swap _ _ _).trans (.cons _ (.swap _ _ _)))).2.1⟩

end LzipTrailer

end Lzip
