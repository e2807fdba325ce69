import Lzip.Index.Basic
import Mathlib.Tactic.IntervalCases
import Mathlib.Tactic.Ring

/-! `Lzip_index::skip_trailing_data`: the backward search for the last member when the
file ends in data that is not a member. The file is read in 16 KiB blocks from the end;
each block keeps the first 25 bytes of the block after it, so a trailer or a header can
straddle two reads. Candidates are filtered by the top byte of their member size, and
runs of zero bytes are skipped. -/
namespace Lzip
namespace LzipIndex

def blockSize : Nat := 16384
def bufferSize : Nat := blockSize + 20 - 1 + 6

@[simp] theorem blockSize_eq : blockSize = 16384 := rfl
@[simp] theorem bufferSize_eq : bufferSize = 16409 := rfl

/-- `while( i > trailer.size && buffer[i-9] == 0 ) --i;` -/
def skipZeros (buffer : Nat → UInt8) : Nat → Nat
  | 0 => 0
  | i + 1 => if 20 < i + 1 ∧ buffer (i + 1 - 9) = 0 then skipZeros buffer i else i + 1

theorem skipZeros_le (buffer : Nat → UInt8) (i : Nat) : skipZeros buffer i ≤ i := by
  induction i with
  | zero => simp [skipZeros]
  | succ i ih => unfold skipZeros; split_ifs <;> omega

/-- Once a trailer ending at `e` and its header have passed: classify the `sz` bytes
after the member (`header2`) and either fail or accept the member. -/
def trailingDecision (idx : LzipIndex) (opts : ClOptions) (pos : Nat) (header2 : LzipHeader)
    (sz : Nat) (trailer : LzipTrailer) (header : LzipHeader) (e member_size : Nat) :
    Bool × LzipIndex × Nat :=
  let full_h2 := decide (6 ≤ sz)
  if header2.checkPrefix sz then
    let idx' :=
      if !full_h2 then { idx with error := "Last member in input file is truncated." }
      else
        let r := idx.checkHeader header2
        if r.1 then { r.2 with error := "Last member in input file is truncated or corrupt." }
        else r.2
    (false, { idx' with retval := 2 }, pos)
  else if !opts.looseTrailing && full_h2 && header2.checkCorrupt then
    (false, idx.setError corruptMmMsg, pos)
  else if !opts.ignoreTrailing then (false, idx.setError trailingMsg, pos)
  else
    (true, idx.pushMember trailer.dataSize (e - member_size) member_size header.dictionarySize,
      e - member_size)

inductive ScanResult
  | exhausted
  | done (r : Bool × LzipIndex × Nat)

/-- The inner `for( int i = search_size; i >= Lzip_trailer::size; --i )` over one block;
the candidate trailer ends at `buffer + i`, that is at file offset `ipos + i`. -/
def scanBlock (f : InFile) (opts : ClOptions) (pos : Nat) (idx : LzipIndex)
    (buffer : Nat → UInt8) (bsize ipos max_msb : Nat) (i : Nat) : ScanResult :=
  if hi : i < 20 then .exhausted else
  if (buffer (i - 1)).toNat ≤ max_msb then
    let trailer : LzipTrailer := ⟨fun k => buffer (i - 20 + k)⟩
    let member_size := trailer.memberSize
    if member_size = 0 then
      scanBlock f opts pos idx buffer bsize ipos max_msb (skipZeros buffer i - 1)
    else if ipos + i < member_size ∨ trailer.checkConsistency = false then
      scanBlock f opts pos idx buffer bsize ipos max_msb (i - 1)
    else if f.readCount 6 (ipos + i - member_size) ≠ 6 then
      .done (false, idx.setErrnoError "Error reading member header: ", pos)
    else
      let header := f.header (ipos + i - member_size)
      if header.check = false then scanBlock f opts pos idx buffer bsize ipos max_msb (i - 1)
      else .done (trailingDecision idx opts pos ⟨fun k => buffer (i + k)⟩ (bsize - i) trailer
        header (ipos + i) member_size)
  else scanBlock f opts pos idx buffer bsize ipos max_msb (i - 1)
termination_by i
decreasing_by all_goals (have hle := skipZeros_le buffer i; omega)

/-- The outer `while( true )`: read a block at `ipos`, scan it, then move one block back,
carrying the first `buffer_size - block_size` bytes to the end of the buffer. -/
def blockLoop (f : InFile) (opts : ClOptions) (pos : Nat) (idx : LzipIndex)
    (buffer : Nat → UInt8) (bsize search_size rd_size ipos : Nat) : Bool × LzipIndex × Nat :=
  if f.readCount rd_size ipos ≠ rd_size then
    (false, idx.setErrnoError "Error seeking member trailer: ", pos)
  else
    let buffer := fun k => if k < rd_size then f.byte (ipos + k) else buffer k
    match scanBlock f opts pos idx buffer bsize ipos ((ipos + search_size) >>> 56 % 256)
        search_size with
    | .done r => r
    | .exhausted =>
      if h : ipos = 0 then (false, idx.setNumError "Bad trailer at pos " (pos - 20), pos)
      else
        blockLoop f opts pos idx
          (fun k => if blockSize ≤ k ∧ k < bufferSize then buffer (k - blockSize) else buffer k)
          bufferSize (bufferSize - 6) blockSize (ipos - blockSize)
termination_by ipos
decreasing_by simp only [blockSize_eq]; omega

/-- If successful, push the last member and set `pos` to its header. -/
def skipTrailingData (f : InFile) (idx : LzipIndex) (pos : Nat) (opts : ClOptions) :
    Bool × LzipIndex × Nat :=
  if pos < minMemberSize then (false, idx, pos) else
  let bsize := if pos % blockSize ≤ bufferSize - blockSize then pos % blockSize + blockSize
    else pos % blockSize
  blockLoop f opts pos idx (fun _ => 0) bsize bsize bsize (pos - bsize)

/-- A trailer ending at `e` whose member size fits before `e`, is consistent, and points at
a header that passes `check()`. -/
def Candidate (f : InFile) (e : Nat) : Prop :=
  (f.trailer (e - 20)).memberSize ≤ e ∧ (f.trailer (e - 20)).checkConsistency = true ∧
    (f.header (e - (f.trailer (e - 20)).memberSize)).check = true

instance (f : InFile) (e : Nat) : Decidable (Candidate f e) :=
  inferInstanceAs (Decidable (_ ∧ _ ∧ _))

/-- The plain backward search: candidate ends `e, e-1, ..., 20` in turn; the first
candidate decides on the bytes `[e, pos)` after it. -/
def plainSearch (f : InFile) (opts : ClOptions) (pos : Nat) (idx : LzipIndex) :
    Nat → Bool × LzipIndex × Nat
  | 0 => (false, idx.setNumError "Bad trailer at pos " (pos - 20), pos)
  | e + 1 =>
    if e + 1 < 20 then (false, idx.setNumError "Bad trailer at pos " (pos - 20), pos)
    else if Candidate f (e + 1) then
      trailingDecision idx opts pos (f.header (e + 1)) (pos - (e + 1)) (f.trailer (e + 1 - 20))
        (f.header (e + 1 - (f.trailer (e + 1 - 20)).memberSize)) (e + 1)
        (f.trailer (e + 1 - 20)).memberSize
    else plainSearch f opts pos idx e

/-! ### Helper facts for the equivalence -/

theorem checkPrefix_congr (h h' : LzipHeader) (sz sz' : Nat) (hsz : min sz 6 = min sz' 6)
    (hb : ∀ k : Fin 6, k.val < sz → h.data k = h'.data k) :
    h.checkPrefix sz = h'.checkPrefix sz' := by
  have hpos : (0 < sz) = (0 < sz') := propext (by omega)
  have hall : (∀ i : Fin 4, i.val < sz → h.data (Fin.castLE (by decide) i) = lzipMagic i) ↔
      (∀ i : Fin 4, i.val < sz' → h'.data (Fin.castLE (by decide) i) = lzipMagic i) := by
    refine forall_congr' fun i => ?_
    have hi : (i.val < sz ↔ i.val < sz') := by omega
    constructor
    · intro hh hlt; rw [← hb _ (hi.2 hlt)]; exact hh (hi.2 hlt)
    · intro hh hlt; rw [hb _ hlt]; exact hh (hi.1 hlt)
  simp only [LzipHeader.checkPrefix, hpos, decide_eq_decide.2 hall]

theorem trailingDecision_congr (idx : LzipIndex) (opts : ClOptions) (pos : Nat)
    (h2 h2' : LzipHeader) (sz sz' : Nat) (t : LzipTrailer) (hd : LzipHeader) (e ms : Nat)
    (hsz : min sz 6 = min sz' 6) (hb : ∀ k : Fin 6, k.val < sz → h2.data k = h2'.data k) :
    trailingDecision idx opts pos h2 sz t hd e ms = trailingDecision idx opts pos h2' sz' t hd e ms := by
  have hp := checkPrefix_congr h2 h2' sz sz' hsz hb
  by_cases hfull : 6 ≤ sz
  · have heq : h2 = h2' := by
      cases h2; cases h2'; congr; funext k; exact hb k (by omega)
    subst heq
    simp only [trailingDecision, hp, show decide (6 ≤ sz) = decide (6 ≤ sz') from by
      simp only [decide_eq_decide]; omega]
  · have : sz = sz' := by omega
    subst this
    simp only [trailingDecision, hp, decide_eq_false hfull, Bool.not_false, Bool.and_false,
      Bool.false_and, if_true, if_false]

theorem memberSize_eq (t : LzipTrailer) :
    t.memberSize = (t.data 12).toNat + 256 * ((t.data 13).toNat + 256 * ((t.data 14).toNat +
      256 * ((t.data 15).toNat + 256 * ((t.data 16).toNat + 256 * ((t.data 17).toNat +
      256 * ((t.data 18).toNat + 256 * (t.data 19).toNat)))))) := by
  simp only [LzipTrailer.memberSize, LzipTrailer.getField, List.foldl, Nat.shiftLeft_eq]
  ring

theorem memberSize_ge_top (t : LzipTrailer) : (t.data 19).toNat * 2 ^ 56 ≤ t.memberSize := by
  rw [memberSize_eq]; omega

theorem memberSize_view (g : Nat → UInt8) (i : Nat) (hi : 20 ≤ i) :
    (LzipTrailer.mk fun k => g (i - 20 + k)).memberSize = (g (i - 8)).toNat + 256 * ((g (i - 7)).toNat +
      256 * ((g (i - 6)).toNat + 256 * ((g (i - 5)).toNat + 256 * ((g (i - 4)).toNat +
      256 * ((g (i - 3)).toNat + 256 * ((g (i - 2)).toNat + 256 * (g (i - 1)).toNat)))))) := by
  rw [memberSize_eq]
  simp only [Fin.coe_ofNat_eq_mod, Nat.reduceMod, show i - 20 + 12 = i - 8 by omega,
    show i - 20 + 13 = i - 7 by omega, show i - 20 + 14 = i - 6 by omega,
    show i - 20 + 15 = i - 5 by omega, show i - 20 + 16 = i - 4 by omega,
    show i - 20 + 17 = i - 3 by omega, show i - 20 + 18 = i - 2 by omega,
    show i - 20 + 19 = i - 1 by omega]

theorem memberSize_view_eq_zero (g : Nat → UInt8) (i : Nat) (hi : 20 ≤ i) :
    (LzipTrailer.mk fun k => g (i - 20 + k)).memberSize = 0 ↔ ∀ k, i - 8 ≤ k → k < i → g k = 0 := by
  rw [memberSize_view g i hi]
  constructor
  · intro h k hk1 hk2
    simp only [Nat.add_eq_zero_iff, Nat.mul_eq_zero, OfNat.ofNat_ne_zero, false_or] at h
    apply UInt8.toNat.inj
    obtain ⟨m, rfl, hm1, hm8⟩ : ∃ m, k = i - m ∧ 1 ≤ m ∧ m ≤ 8 :=
      ⟨i - k, by omega, by omega, by omega⟩
    interval_cases m <;> simp only [h, UInt8.toNat_zero]
  · intro h
    simp only [h (i - 8) (by omega) (by omega), h (i - 7) (by omega) (by omega),
      h (i - 6) (by omega) (by omega), h (i - 5) (by omega) (by omega),
      h (i - 4) (by omega) (by omega), h (i - 3) (by omega) (by omega),
      h (i - 2) (by omega) (by omega), h (i - 1) (by omega) (by omega), UInt8.toNat_zero]

theorem checkConsistency_memberSize (t : LzipTrailer) (h : t.checkConsistency = true) :
    36 ≤ t.memberSize := by
  simp only [LzipTrailer.checkConsistency, minMemberSize_eq] at h
  split_ifs at h
  omega

theorem plainSearch_eq (f : InFile) (opts : ClOptions) (pos : Nat) (idx : LzipIndex) (e : Nat)
    (he : 20 ≤ e) :
    plainSearch f opts pos idx e =
      if Candidate f e then
        trailingDecision idx opts pos (f.header e) (pos - e) (f.trailer (e - 20))
          (f.header (e - (f.trailer (e - 20)).memberSize)) e (f.trailer (e - 20)).memberSize
      else plainSearch f opts pos idx (e - 1) := by
  obtain ⟨e, rfl⟩ : ∃ e', e = e' + 1 := ⟨e - 1, by omega⟩
  simp [plainSearch, show ¬e + 1 < 20 by omega]

theorem plainSearch_skip (f : InFile) (opts : ClOptions) (pos : Nat) (idx : LzipIndex)
    (a b : Nat) (hab : a ≤ b) (h : ∀ e, a < e → e ≤ b → 20 ≤ e ∧ ¬Candidate f e) :
    plainSearch f opts pos idx b = plainSearch f opts pos idx a := by
  induction b, hab using Nat.le_induction with
  | base => rfl
  | succ b hab ih =>
    obtain ⟨h20, hc⟩ := h (b + 1) (by omega) le_rfl
    rw [plainSearch_eq f opts pos idx (b + 1) h20, if_neg hc, Nat.add_sub_cancel]
    exact ih fun e h1 h2 => h e h1 (by omega)

theorem skipZeros_spec (buffer : Nat → UInt8) (i : Nat) (hi : 20 ≤ i) :
    20 ≤ skipZeros buffer i ∧ ∀ k, skipZeros buffer i - 8 ≤ k → k + 9 ≤ i → buffer k = 0 := by
  induction i with
  | zero => omega
  | succ i ih =>
    unfold skipZeros
    split_ifs with h
    · obtain ⟨h20, hz⟩ := ih (by omega)
      refine ⟨h20, fun k hk1 hk2 => ?_⟩
      by_cases hk : k + 9 ≤ i
      · exact hz k hk1 hk
      · rw [show k = i + 1 - 9 by omega]; exact h.2
    · exact ⟨hi, fun k hk1 hk2 => by omega⟩

def ScanResult.out : ScanResult → Bool × LzipIndex × Nat → Bool × LzipIndex × Nat
  | .done r, _ => r
  | .exhausted, x => x

/-! ### The branches of one scan position

Each branch of `scanBlock` at a position `i` as an equation, for the proofs below to cite.
`t` is the trailer `[i - 20, i)` of the buffer. -/

section ScanStep

variable {f : InFile} {opts : ClOptions} {pos : Nat} {idx : LzipIndex} {buffer : Nat → UInt8}
  {bsize ipos max_msb i : Nat} {t : LzipTrailer}

theorem scanBlock_lt (h : i < 20) :
    scanBlock f opts pos idx buffer bsize ipos max_msb i = .exhausted := by
  rw [scanBlock, dif_pos h]

theorem scanBlock_msb (h : ¬i < 20) (hm : ¬(buffer (i - 1)).toNat ≤ max_msb) :
    scanBlock f opts pos idx buffer bsize ipos max_msb i =
      scanBlock f opts pos idx buffer bsize ipos max_msb (i - 1) := by
  rw [scanBlock, dif_neg h, if_neg hm]

theorem scanBlock_zero (h : ¬i < 20) (hm : (buffer (i - 1)).toNat ≤ max_msb)
    (ht : LzipTrailer.mk (fun k => buffer (i - 20 + k)) = t) (hz : t.memberSize = 0) :
    scanBlock f opts pos idx buffer bsize ipos max_msb i =
      scanBlock f opts pos idx buffer bsize ipos max_msb (skipZeros buffer i - 1) := by
  subst ht
  rw [scanBlock, dif_neg h, if_pos hm]
  exact if_pos hz

theorem scanBlock_bad (h : ¬i < 20) (hm : (buffer (i - 1)).toNat ≤ max_msb)
    (ht : LzipTrailer.mk (fun k => buffer (i - 20 + k)) = t) (hz : t.memberSize ≠ 0)
    (hc : ipos + i < t.memberSize ∨ t.checkConsistency = false) :
    scanBlock f opts pos idx buffer bsize ipos max_msb i =
      scanBlock f opts pos idx buffer bsize ipos max_msb (i - 1) := by
  subst ht
  rw [scanBlock, dif_neg h, if_pos hm]
  exact (if_neg hz).trans (if_pos hc)

theorem scanBlock_consistent (h : ¬i < 20) (hm : (buffer (i - 1)).toNat ≤ max_msb)
    (ht : LzipTrailer.mk (fun k => buffer (i - 20 + k)) = t) (hz : t.memberSize ≠ 0)
    (hc : ¬(ipos + i < t.memberSize ∨ t.checkConsistency = false)) :
    scanBlock f opts pos idx buffer bsize ipos max_msb i =
      if f.readCount 6 (ipos + i - t.memberSize) ≠ 6 then
        .done (false, idx.setErrnoError "Error reading member header: ", pos)
      else if (f.header (ipos + i - t.memberSize)).check = false then
        scanBlock f opts pos idx buffer bsize ipos max_msb (i - 1)
      else .done (trailingDecision idx opts pos ⟨fun k => buffer (i + k)⟩ (bsize - i) t
        (f.header (ipos + i - t.memberSize)) (ipos + i) t.memberSize) := by
  subst ht
  rw [scanBlock, dif_neg h, if_pos hm]
  exact (if_neg hz).trans (if_neg hc)

end ScanStep

theorem firstBlock_bounds {pos bsize : Nat} (h36 : 36 ≤ pos)
    (hb : (if pos % blockSize ≤ bufferSize - blockSize then pos % blockSize + blockSize
      else pos % blockSize) = bsize) :
    26 ≤ bsize ∧ bsize ≤ bufferSize ∧ bsize ≤ pos ∧ (pos - bsize) % blockSize = 0 := by
  subst hb
  simp only [blockSize_eq, bufferSize_eq]
  split_ifs <;> omega

section Scan

variable (f : InFile) (opts : ClOptions) (pos : Nat) (idx : LzipIndex)

theorem scanBlock_spec (buffer : Nat → UInt8) (bsize ipos max_msb : Nat)
    (hbuf : ∀ k < bsize, buffer k = f.byte (ipos + k))
    (hpos : ipos + bsize ≤ pos) (hsize : pos ≤ f.size) (i : Nat) (h19 : 19 ≤ i)
    (hib : i ≤ bsize) (hmsb : ipos + i < (max_msb + 1) * 2 ^ 56)
    (hfull : ipos + bsize = pos ∨ i + 6 ≤ bsize) :
    (scanBlock f opts pos idx buffer bsize ipos max_msb i).out
        (plainSearch f opts pos idx (ipos + 19)) = plainSearch f opts pos idx (ipos + i) := by
  induction i using Nat.strong_induction_on with
  | _ i ih =>
  by_cases hi : i < 20
  · rw [scanBlock_lt hi, show i = 19 by omega]; rfl
  have hview : (LzipTrailer.mk fun k => buffer (i - 20 + k)) = f.trailer (ipos + i - 20) := by
    simp only [InFile.trailer, LzipTrailer.mk.injEq]
    funext k
    rw [hbuf _ (by omega)]; congr 1; omega
  have step (hc : ¬Candidate f (ipos + i)) :
      (scanBlock f opts pos idx buffer bsize ipos max_msb (i - 1)).out
        (plainSearch f opts pos idx (ipos + 19)) = plainSearch f opts pos idx (ipos + i) := by
    rw [plainSearch_eq f opts pos idx (ipos + i) (by omega), if_neg hc,
      ih (i - 1) (by omega) (by omega) (by omega) (by omega) (by omega)]
    congr 1; omega
  by_cases hm : (buffer (i - 1)).toNat ≤ max_msb
  swap
  · rw [scanBlock_msb hi hm]
    refine step fun ⟨hle, _⟩ => ?_
    have htop := memberSize_ge_top (f.trailer (ipos + i - 20))
    have h19 : (f.trailer (ipos + i - 20)).data 19 = buffer (i - 1) := by
      simp only [InFile.trailer, Fin.coe_ofNat_eq_mod, Nat.reduceMod]
      rw [hbuf _ (by omega)]; congr 1; omega
    rw [h19] at htop
    have : (max_msb + 1) * 2 ^ 56 ≤ (buffer (i - 1)).toNat * 2 ^ 56 :=
      Nat.mul_le_mul_right _ (by omega)
    omega
  by_cases hz : (f.trailer (ipos + i - 20)).memberSize = 0
  · rw [scanBlock_zero hi hm hview hz]
    obtain ⟨hs20, hzero⟩ := skipZeros_spec buffer i (by omega)
    have hsle := skipZeros_le buffer i
    rw [ih _ (by omega) (by omega) (by omega) (by omega) (by omega)]
    have hzf := (memberSize_view_eq_zero f.byte (ipos + i) (by omega)).1 hz
    refine (plainSearch_skip f opts pos idx _ _ (by omega) fun e he1 he2 => ⟨by omega, ?_⟩).symm
    rintro ⟨-, hcons, -⟩
    have h0 : (f.trailer (e - 20)).memberSize = 0 := by
      refine (memberSize_view_eq_zero f.byte e (by omega)).2 fun k hk1 hk2 => ?_
      by_cases hk : k + 9 ≤ ipos + i
      · rw [show k = ipos + (k - ipos) by omega, ← hbuf _ (by omega)]
        exact hzero _ (by omega) (by omega)
      · exact hzf k (by omega) (by omega)
    have := checkConsistency_memberSize _ hcons
    omega
  by_cases hc : ipos + i < (f.trailer (ipos + i - 20)).memberSize ∨
      (f.trailer (ipos + i - 20)).checkConsistency = false
  · rw [scanBlock_bad hi hm hview hz hc]
    exact step fun ⟨hle, hcons, _⟩ =>
      hc.elim (fun h => by omega) (fun h => Bool.false_ne_true (h.symm.trans hcons))
  rw [scanBlock_consistent hi hm hview hz hc]
  simp only [not_or, Bool.not_eq_false, not_lt] at hc
  have h36 := checkConsistency_memberSize (f.trailer (ipos + i - 20)) hc.2
  rw [if_neg (show ¬f.readCount 6 (ipos + i - (f.trailer (ipos + i - 20)).memberSize) ≠ 6 by
    simp only [InFile.readCount]; omega)]
  by_cases hh : (f.header (ipos + i - (f.trailer (ipos + i - 20)).memberSize)).check = false
  · rw [if_pos hh]
    exact step fun ⟨_, _, hch⟩ => Bool.false_ne_true (hh.symm.trans hch)
  rw [if_neg hh, ScanResult.out, plainSearch_eq f opts pos idx (ipos + i) (by omega), if_pos]
  · apply trailingDecision_congr
    · omega
    · intro k hk
      simp only [InFile.header]
      rw [hbuf _ (by omega)]; congr 1; omega
  · exact ⟨hc.1, hc.2, by simpa using hh⟩

/-- Each block read keeps the buffer equal to the file from `ipos` on, so the whole loop
answers as the plain search from the first block's last candidate. -/
theorem blockLoop_spec (hsize : pos ≤ f.size) (h64 : pos < 2 ^ 64) (ipos : Nat) :
    ∀ (buffer : Nat → UInt8) (bsize search_size rd_size : Nat),
      ipos % blockSize = 0 → 26 ≤ bsize → rd_size ≤ bsize → 20 ≤ search_size →
      search_size ≤ bsize → ipos + bsize ≤ pos → (ipos + bsize = pos ∨ search_size + 6 ≤ bsize) →
      (∀ k, rd_size ≤ k → k < bsize → buffer k = f.byte (ipos + k)) →
      blockLoop f opts pos idx buffer bsize search_size rd_size ipos =
        plainSearch f opts pos idx (ipos + search_size) := by
  induction ipos using Nat.strong_induction_on with
  | _ ipos ih =>
  intro buffer bsize search_size rd_size hmod h26 hrd h20 hss hpos hfull hbuf
  simp only [blockSize_eq] at hmod
  rw [blockLoop, if_neg (by simp only [InFile.readCount]; omega)]
  have hbuf' : ∀ k < bsize,
      (if k < rd_size then f.byte (ipos + k) else buffer k) = f.byte (ipos + k) := by
    intro k hk; split_ifs with h
    · rfl
    · exact hbuf k (by omega) hk
  have hmsb : ipos + search_size < ((ipos + search_size) >>> 56 % 256 + 1) * 2 ^ 56 := by
    rw [Nat.shiftRight_eq_div_pow]; omega
  have hscan := scanBlock_spec f opts pos idx _ bsize ipos _ hbuf' hpos hsize search_size
    (by omega) hss hmsb (by omega)
  dsimp only
  generalize scanBlock f opts pos idx _ bsize ipos _ search_size = r at hscan ⊢
  cases r with
  | done r => exact hscan
  | exhausted =>
    rw [ScanResult.out] at hscan
    dsimp only
    rw [← hscan]
    split_ifs with h0
    · subst h0; rfl
    · simp only [blockSize_eq, bufferSize_eq]
      rw [ih (ipos - 16384) (by omega) _ _ _ _ (by simp only [blockSize_eq]; omega) (by omega)
        (by omega) (by omega) (by omega) (by omega) (by omega)]
      · exact congrArg _ (by omega)
      · intro k hk1 hk2
        rw [if_pos ⟨hk1, hk2⟩, hbuf' _ (by omega)]
        exact congrArg _ (by omega)

theorem skipTrailingData_plain (h36 : 36 ≤ pos) (hsize : pos ≤ f.size) (h64 : pos < 2 ^ 64) :
    skipTrailingData f idx pos opts = plainSearch f opts pos idx pos := by
  rw [skipTrailingData, if_neg (by simp only [minMemberSize_eq]; omega)]
  dsimp only
  generalize hb : (if pos % blockSize ≤ bufferSize - blockSize then pos % blockSize + blockSize
    else pos % blockSize) = bsize
  obtain ⟨h26, -, hle, hmod⟩ := firstBlock_bounds h36 hb
  rw [blockLoop_spec f opts pos idx hsize h64 _ _ _ _ _ hmod h26 le_rfl (by omega) le_rfl
    (by omega) (.inl (by omega)) fun k h1 h2 => by omega, Nat.sub_add_cancel hle]

end Scan

/-- `skip_trailing_data` has the outcome of the plain backward search: the same accepted
member and new `pos`, or the same `retval_` and error message. The block reads with their
carry-over, the top-byte filter and the zero-run skip neither lose nor add a candidate. -/
theorem skipTrailingData_eq_plainSearch (f : InFile) (opts : ClOptions) (idx : LzipIndex)
    (pos : Nat) (h36 : 36 ≤ pos) (hsize : pos ≤ f.size) (h64 : pos < 2 ^ 64) :
    skipTrailingData f idx pos opts = plainSearch f opts pos idx pos :=
  skipTrailingData_plain f opts pos idx h36 hsize h64

def memberThenGarbage : InFile :=
  InFile.ofList ([0x4C, 0x5A, 0x49, 0x50, 1, 12] ++ List.replicate 22 0 ++ [36] ++
    List.replicate 7 0 ++ [0x67, 0x61, 0x72, 0x62, 0x61, 0x67, 0x65])

theorem skipTrailingData_eq_plainSearch_garbage :
    36 ≤ 43 ∧ 43 ≤ memberThenGarbage.size ∧ 43 < 2 ^ 64 ∧
      skipTrailingData memberThenGarbage ⟨[], "", 43, 0, 0⟩ 43 {} =
        plainSearch memberThenGarbage {} 43 ⟨[], "", 43, 0, 0⟩ 43 :=
  ⟨by decide, by decide, by decide,
    skipTrailingData_eq_plainSearch memberThenGarbage {} ⟨[], "", 43, 0, 0⟩ 43
      (by decide) (by decide) (by decide)⟩

/-! ### What the plain search can return -/

/-- The tests the `sz` bytes after a last member must pass to be ignored as trailing data:
`ignore_trailing` set, no (truncated) magic, and, unless `loose_trailing`, no corrupt
magic when a whole header's worth of bytes is there. -/
def TrailingOk (opts : ClOptions) (header2 : LzipHeader) (sz : Nat) : Prop :=
  opts.ignoreTrailing = true ∧ header2.checkPrefix sz = false ∧
    (opts.looseTrailing = false → 6 ≤ sz → header2.checkCorrupt = false)

instance (opts : ClOptions) (header2 : LzipHeader) (sz : Nat) :
    Decidable (TrailingOk opts header2 sz) :=
  inferInstanceAs (Decidable (_ ∧ _ ∧ _))

section Decision

variable (idx : LzipIndex) (opts : ClOptions) (pos : Nat) (h2 : LzipHeader) (sz : Nat)
  (t : LzipTrailer) (hd : LzipHeader) (e ms : Nat)

theorem trailingDecision_accept (h : TrailingOk opts h2 sz) :
    trailingDecision idx opts pos h2 sz t hd e ms =
      (true, idx.pushMember t.dataSize (e - ms) ms hd.dictionarySize, e - ms) := by
  obtain ⟨hi, hp, hc⟩ := h
  unfold trailingDecision
  by_cases h6 : 6 ≤ sz
  · cases hl : opts.looseTrailing <;> simp_all
  · simp_all

theorem trailingDecision_reject (h : ¬TrailingOk opts h2 sz) :
    (trailingDecision idx opts pos h2 sz t hd e ms).1 = false ∧
      (trailingDecision idx opts pos h2 sz t hd e ms).2.1.retval = 2 ∧
      (trailingDecision idx opts pos h2 sz t hd e ms).2.1.member_vector = idx.member_vector := by
  unfold trailingDecision
  by_cases hp : h2.checkPrefix sz = true
  · rw [if_pos hp]
    dsimp only
    exact ⟨rfl, rfl, by split_ifs <;> simp⟩
  rw [if_neg hp]
  by_cases hc : (!opts.looseTrailing && decide (6 ≤ sz) && h2.checkCorrupt) = true
  · rw [if_pos hc]
    exact ⟨rfl, rfl, rfl⟩
  rw [if_neg hc]
  have hi : opts.ignoreTrailing = false := by
    refine Bool.eq_false_iff.2 fun hi => h ⟨hi, by simpa using hp, fun hl h6 => ?_⟩
    simpa [hl, h6] using hc
  rw [if_pos (by rw [hi]; rfl)]
  exact ⟨rfl, rfl, rfl⟩

theorem trailingDecision_true (h : (trailingDecision idx opts pos h2 sz t hd e ms).1 = true) :
    TrailingOk opts h2 sz := by
  by_contra hn
  rw [(trailingDecision_reject idx opts pos h2 sz t hd e ms hn).1] at h
  cases h

theorem trailingDecision_false (h : (trailingDecision idx opts pos h2 sz t hd e ms).1 = false) :
    (trailingDecision idx opts pos h2 sz t hd e ms).2.1.retval = 2 ∧
      (trailingDecision idx opts pos h2 sz t hd e ms).2.1.member_vector = idx.member_vector := by
  by_cases hok : TrailingOk opts h2 sz
  · rw [trailingDecision_accept idx opts pos h2 sz t hd e ms hok] at h
    cases h
  · exact (trailingDecision_reject idx opts pos h2 sz t hd e ms hok).2

end Decision

section Plain

variable (f : InFile) (opts : ClOptions) (pos : Nat) (idx : LzipIndex)

/-- The member a candidate end `e` stands for, as the index pushes it. -/
def candidateMember (e : Nat) : LzipIndex :=
  idx.pushMember (f.trailer (e - 20)).dataSize (e - (f.trailer (e - 20)).memberSize)
    (f.trailer (e - 20)).memberSize (f.header (e - (f.trailer (e - 20)).memberSize)).dictionarySize

theorem plainSearch_true (e : Nat) (h : (plainSearch f opts pos idx e).1 = true) :
    ∃ e' ≤ e, 20 ≤ e' ∧ Candidate f e' ∧ TrailingOk opts (f.header e') (pos - e') ∧
      plainSearch f opts pos idx e =
        (true, candidateMember f idx e', e' - (f.trailer (e' - 20)).memberSize) := by
  induction e with
  | zero => simp [plainSearch] at h
  | succ e ih =>
    by_cases h20 : 20 ≤ e + 1
    · rw [plainSearch_eq f opts pos idx _ h20] at h ⊢
      by_cases hc : Candidate f (e + 1)
      · simp only [if_pos hc] at h ⊢
        have hok := trailingDecision_true _ _ _ _ _ _ _ _ _ h
        exact ⟨e + 1, le_rfl, h20, hc, hok, trailingDecision_accept _ _ _ _ _ _ _ _ _ hok⟩
      · simp only [if_neg hc, Nat.add_sub_cancel] at h ⊢
        obtain ⟨e', he', hrest⟩ := ih h
        exact ⟨e', by omega, hrest⟩
    · simp [plainSearch, show e + 1 < 20 by omega] at h

theorem plainSearch_false (e : Nat) (h : (plainSearch f opts pos idx e).1 = false) :
    (plainSearch f opts pos idx e).2.1.retval = 2 ∧
      (plainSearch f opts pos idx e).2.1.member_vector = idx.member_vector := by
  induction e with
  | zero => simp [plainSearch]
  | succ e ih =>
    by_cases h20 : 20 ≤ e + 1
    · rw [plainSearch_eq f opts pos idx _ h20] at h ⊢
      by_cases hc : Candidate f (e + 1)
      · simp only [if_pos hc] at h ⊢
        exact trailingDecision_false _ _ _ _ _ _ _ _ _ h
      · simp only [if_neg hc, Nat.add_sub_cancel] at h ⊢
        exact ih h
    · simp [plainSearch, show e + 1 < 20 by omega]

theorem plainSearch_reach (e b : Nat) (he : 20 ≤ e) (heb : e ≤ b) (hc : Candidate f e)
    (hnone : ∀ e', e < e' → e' ≤ b → ¬Candidate f e') :
    plainSearch f opts pos idx b =
      trailingDecision idx opts pos (f.header e) (pos - e) (f.trailer (e - 20))
        (f.header (e - (f.trailer (e - 20)).memberSize)) e (f.trailer (e - 20)).memberSize := by
  rw [plainSearch_skip f opts pos idx e b heb fun e' h1 h2 => ⟨by omega, hnone e' h1 h2⟩,
    plainSearch_eq f opts pos idx e he, if_pos hc]

end Plain

/-! ### An accepted member lies before `pos`

These hold for every argument, so that the constructor's loop, which continues at the
member `skip_trailing_data` accepts, is seen to terminate. -/

section Accept

variable (f : InFile) (opts : ClOptions) (pos : Nat) (idx : LzipIndex)

theorem scanBlock_accept_le (buffer : Nat → UInt8) (bsize ipos max_msb : Nat) (i : Nat)
    (r : Bool × LzipIndex × Nat) (h : scanBlock f opts pos idx buffer bsize ipos max_msb i = .done r)
    (hr : r.1 = true) : r.2.2 + 36 ≤ ipos + i := by
  induction i using Nat.strong_induction_on generalizing r with
  | _ i ih =>
  have hz := skipZeros_le buffer i
  have hrec (j : Nat) (hj : j < i) (h : scanBlock f opts pos idx buffer bsize ipos max_msb j = .done r) :
      r.2.2 + 36 ≤ ipos + i :=
    Nat.le_trans (ih j hj r h hr) (by omega)
  by_cases h20 : i < 20
  · rw [scanBlock_lt h20] at h; cases h
  by_cases hm : (buffer (i - 1)).toNat ≤ max_msb
  swap
  · rw [scanBlock_msb h20 hm] at h; exact hrec _ (by omega) h
  generalize ht : LzipTrailer.mk (fun k => buffer (i - 20 + k)) = t
  by_cases h0 : t.memberSize = 0
  · rw [scanBlock_zero h20 hm ht h0] at h; exact hrec _ (by omega) h
  by_cases hc : ipos + i < t.memberSize ∨ t.checkConsistency = false
  · rw [scanBlock_bad h20 hm ht h0 hc] at h; exact hrec _ (by omega) h
  rw [scanBlock_consistent h20 hm ht h0 hc] at h
  simp only [not_or, Bool.not_eq_false, not_lt] at hc
  have h36 := checkConsistency_memberSize _ hc.2
  by_cases hrd : f.readCount 6 (ipos + i - t.memberSize) ≠ 6
  · rw [if_pos hrd] at h; cases h; cases hr
  rw [if_neg hrd] at h
  by_cases hh : (f.header (ipos + i - t.memberSize)).check = false
  · rw [if_pos hh] at h; exact hrec _ (by omega) h
  rw [if_neg hh] at h
  cases h
  rw [trailingDecision_accept _ _ _ _ _ _ _ _ _ (trailingDecision_true _ _ _ _ _ _ _ _ _ hr)]
  dsimp only
  omega

theorem blockLoop_accept_le (ipos : Nat) :
    ∀ (buffer : Nat → UInt8) (bsize search_size rd_size : Nat), ipos % blockSize = 0 →
      19 ≤ search_size → ipos + search_size ≤ pos →
      (blockLoop f opts pos idx buffer bsize search_size rd_size ipos).1 = true →
      (blockLoop f opts pos idx buffer bsize search_size rd_size ipos).2.2 + 36 ≤ pos := by
  induction ipos using Nat.strong_induction_on with
  | _ ipos ih =>
  intro buffer bsize search_size rd_size hmod h19 hpos h
  simp only [blockSize_eq] at hmod
  rw [blockLoop] at h ⊢
  by_cases hrd : f.readCount rd_size ipos ≠ rd_size
  · rw [if_pos hrd] at h; simp at h
  rw [if_neg hrd] at h ⊢
  dsimp only at h ⊢
  generalize hs : scanBlock f opts pos idx _ bsize ipos _ search_size = r at h ⊢
  cases r with
  | done r => exact Nat.le_trans (scanBlock_accept_le f opts pos idx _ _ _ _ _ r hs h) hpos
  | exhausted =>
    dsimp only at h ⊢
    by_cases h0 : ipos = 0
    · rw [dif_pos h0] at h; simp at h
    rw [dif_neg h0] at h ⊢
    exact ih _ (by simp only [blockSize_eq]; omega) _ _ _ _ (by simp only [blockSize_eq]; omega)
      (by simp only [bufferSize_eq]; omega) (by simp only [blockSize_eq, bufferSize_eq]; omega) h

theorem skipTrailingData_accept_le (h : (skipTrailingData f idx pos opts).1 = true) :
    (skipTrailingData f idx pos opts).2.2 + 36 ≤ pos := by
  rw [skipTrailingData] at h ⊢
  by_cases h36 : pos < minMemberSize
  · rw [if_pos h36] at h; simp at h
  rw [if_neg h36] at h ⊢
  simp only [minMemberSize_eq, not_lt] at h36
  dsimp only at h ⊢
  generalize hb : (if pos % blockSize ≤ bufferSize - blockSize then pos % blockSize + blockSize
    else pos % blockSize) = bsize at h ⊢
  obtain ⟨h26, -, hle, hmod⟩ := firstBlock_bounds h36 hb
  exact blockLoop_accept_le f opts pos idx _ _ _ _ _ hmod (by omega) (by omega) h

end Accept

end LzipIndex
end Lzip
