import Lzip.Index.SkipTrailing

/-! The accesses of `skip_trailing_data`. A copy of the scan that faults (`none`) where
the code would index `buffer` outside the `bsize` bytes it holds, seek outside
`[0, pos)`, let an unsigned offset wrap, or start more block reads than
`pos / block_size + 1`; at each loop head it also checks that `ipos` is block aligned,
and at each search that the buffer holds the file bytes from `ipos`. The bytes of the
buffer the code has not filled are arbitrary (`junk`). The checked copy never faults
and returns what `skipTrailingData` returns. -/
namespace Lzip
namespace LzipIndex

def bufferAt (buffer : Nat → UInt8) (bsize i d : Nat) : Option UInt8 :=
  if d ≤ i ∧ i - d < bsize then some (buffer (i - d)) else none

def trailerAt (buffer : Nat → UInt8) (bsize i : Nat) : Option LzipTrailer :=
  if 20 ≤ i ∧ i ≤ bsize then some ⟨fun k => buffer (i - 20 + k)⟩ else none

def header2At (junk buffer : Nat → UInt8) (bsize i : Nat) : LzipHeader :=
  ⟨fun k => if i + k < bsize then buffer (i + k) else junk (i + k)⟩

/-- `while( i > trailer.size && buffer[i-9] == 0 ) --i;` with each read checked. -/
def skipZerosChecked (buffer : Nat → UInt8) (bsize : Nat) : Nat → Option Nat
  | 0 => some 0
  | i + 1 =>
    if 20 < i + 1 then
      match bufferAt buffer bsize (i + 1) 9 with
      | none => none
      | some b => if b = 0 then skipZerosChecked buffer bsize i else some (i + 1)
    else some (i + 1)

theorem skipZerosChecked_le (buffer : Nat → UInt8) (bsize : Nat) :
    ∀ {i j : Nat}, skipZerosChecked buffer bsize i = some j → j ≤ i
  | 0, _, h => by cases h; rfl
  | i + 1, j, h => by
    unfold skipZerosChecked at h
    split_ifs at h
    · split at h
      · cases h
      · split_ifs at h
        · exact Nat.le_succ_of_le (skipZerosChecked_le buffer bsize h)
        · cases h; rfl
    · cases h; rfl

/-- The inner `for` with each read of `buffer` and of the file checked. -/
def scanBlockChecked (junk : Nat → UInt8) (f : InFile) (opts : ClOptions) (pos : Nat)
    (idx : LzipIndex) (buffer : Nat → UInt8) (bsize ipos max_msb : Nat) (i : Nat) :
    Option ScanResult :=
  if _ : i < 20 then some .exhausted else
  match bufferAt buffer bsize i 1 with
  | none => none
  | some msb =>
    if msb.toNat ≤ max_msb then
      match trailerAt buffer bsize i with
      | none => none
      | some trailer =>
        let member_size := trailer.memberSize
        if member_size = 0 then
          match h : skipZerosChecked buffer bsize i with
          | none => none
          | some j => scanBlockChecked junk f opts pos idx buffer bsize ipos max_msb (j - 1)
        else if ipos + i < member_size ∨ trailer.checkConsistency = false then
          scanBlockChecked junk f opts pos idx buffer bsize ipos max_msb (i - 1)
        else if pos < ipos + i - member_size + 6 then none
        else if f.readCount 6 (ipos + i - member_size) ≠ 6 then
          some (.done (false, idx.setErrnoError "Error reading member header: ", pos))
        else
          let header := f.header (ipos + i - member_size)
          if header.check = false then
            scanBlockChecked junk f opts pos idx buffer bsize ipos max_msb (i - 1)
          else some (.done (trailingDecision idx opts pos (header2At junk buffer bsize i)
            (bsize - i) trailer header (ipos + i) member_size))
    else scanBlockChecked junk f opts pos idx buffer bsize ipos max_msb (i - 1)
termination_by i
decreasing_by
  all_goals first
    | omega
    | (have hj := skipZerosChecked_le buffer bsize h; omega)

/-- The outer `while( true )` with its reads checked; `reads` is how many block reads
the bound still allows. -/
def blockLoopChecked (junk : Nat → UInt8) (f : InFile) (opts : ClOptions) (pos : Nat)
    (idx : LzipIndex) : Nat → (Nat → UInt8) → Nat → Nat → Nat → Nat →
      Option (Bool × LzipIndex × Nat)
  | 0, _, _, _, _, _ => none
  | reads + 1, buffer, bsize, search_size, rd_size, ipos =>
    if ¬(ipos % blockSize = 0 ∧ bsize ≤ bufferSize ∧ rd_size ≤ bufferSize ∧
        ipos + rd_size ≤ pos) then none
    else if f.readCount rd_size ipos ≠ rd_size then
      some (false, idx.setErrnoError "Error seeking member trailer: ", pos)
    else
      let buffer := fun k => if k < rd_size then f.byte (ipos + k) else buffer k
      if ¬((∀ k < bsize, buffer k = f.byte (ipos + k)) ∧ search_size ≤ bsize) then none
      else
        match scanBlockChecked junk f opts pos idx buffer bsize ipos
            ((ipos + search_size) >>> 56 % 256) search_size with
        | none => none
        | some (.done r) => some r
        | some .exhausted =>
          if ipos = 0 then some (false, idx.setNumError "Bad trailer at pos " (pos - 20), pos)
          else if ipos < blockSize ∨ bsize < bufferSize - blockSize then none
          else
            blockLoopChecked junk f opts pos idx reads
              (fun k => if blockSize ≤ k ∧ k < bufferSize then buffer (k - blockSize) else buffer k)
              bufferSize (bufferSize - 6) blockSize (ipos - blockSize)

/-- `skip_trailing_data` with its accesses checked, from an uninitialized buffer. -/
def skipTrailingDataChecked (junk : Nat → UInt8) (f : InFile) (idx : LzipIndex) (pos : Nat)
    (opts : ClOptions) : Option (Bool × LzipIndex × Nat) :=
  if pos < minMemberSize then some (false, idx, pos) else
  let bsize := if pos % blockSize ≤ bufferSize - blockSize then pos % blockSize + blockSize
    else pos % blockSize
  if ¬(26 ≤ bsize ∧ bsize ≤ bufferSize ∧ bsize ≤ pos) then none
  else blockLoopChecked junk f opts pos idx (pos / blockSize + 1) junk bsize bsize bsize
    (pos - bsize)

/-! ### The checked copy never faults -/

section Checked

variable (junk : Nat → UInt8) (f : InFile) (opts : ClOptions) (pos : Nat) (idx : LzipIndex)

theorem skipZerosChecked_eq (buffer buffer' : Nat → UInt8) (bsize : Nat)
    (hbuf : ∀ k < bsize, buffer k = buffer' k) :
    ∀ i, i ≤ bsize → skipZerosChecked buffer bsize i = some (skipZeros buffer' i)
  | 0, _ => rfl
  | i + 1, hi => by
    rw [skipZerosChecked, skipZeros]
    by_cases h20 : 20 < i + 1
    · rw [if_pos h20, bufferAt, if_pos ⟨by omega, by omega⟩, hbuf _ (by omega)]
      dsimp only
      by_cases hz : buffer' (i + 1 - 9) = 0
      · rw [if_pos hz, if_pos ⟨h20, hz⟩, skipZerosChecked_eq buffer buffer' bsize hbuf i (by omega)]
      · rw [if_neg hz, if_neg fun h => hz h.2]
    · rw [if_neg h20, if_neg fun h => h20 h.1]

theorem scanBlockChecked_eq (buffer buffer' : Nat → UInt8) (bsize ipos max_msb : Nat)
    (hbuf : ∀ k < bsize, buffer k = buffer' k) (hpos : ipos + bsize ≤ pos) (i : Nat)
    (hib : i ≤ bsize) :
    scanBlockChecked junk f opts pos idx buffer bsize ipos max_msb i =
      some (scanBlock f opts pos idx buffer' bsize ipos max_msb i) := by
  induction i using Nat.strong_induction_on with
  | _ i ih =>
  rw [scanBlockChecked]
  by_cases hi : i < 20
  · rw [dif_pos hi, scanBlock_lt hi]
  rw [dif_neg hi, bufferAt, if_pos ⟨by omega, by omega⟩, hbuf _ (by omega)]
  dsimp only
  by_cases hm : (buffer' (i - 1)).toNat ≤ max_msb
  swap
  · rw [if_neg hm, scanBlock_msb hi hm]
    exact ih _ (by omega) (by omega)
  have htr : trailerAt buffer bsize i = some ⟨fun k => buffer' (i - 20 + k)⟩ := by
    rw [trailerAt, if_pos ⟨by omega, hib⟩]
    congr; funext k; exact hbuf _ (by omega)
  rw [if_pos hm, htr]
  dsimp only
  generalize ht : (⟨fun k => buffer' (i - 20 + k)⟩ : LzipTrailer) = trailer
  by_cases hz : trailer.memberSize = 0
  · rw [if_pos hz, scanBlock_zero hi hm ht hz]
    have hsz := skipZeros_le buffer' i
    split
    · next h => rw [skipZerosChecked_eq buffer buffer' bsize hbuf i hib] at h; cases h
    · next j h =>
      rw [skipZerosChecked_eq buffer buffer' bsize hbuf i hib] at h
      cases h
      exact ih _ (by omega) (by omega)
  rw [if_neg hz]
  by_cases hc : ipos + i < trailer.memberSize ∨ trailer.checkConsistency = false
  · rw [if_pos hc, scanBlock_bad hi hm ht hz hc]
    exact ih _ (by omega) (by omega)
  rw [if_neg hc, scanBlock_consistent hi hm ht hz hc]
  have h36 := checkConsistency_memberSize trailer (by simpa using (not_or.1 hc).2)
  rw [if_neg (show ¬pos < ipos + i - trailer.memberSize + 6 by omega)]
  by_cases hr : f.readCount 6 (ipos + i - trailer.memberSize) ≠ 6
  · rw [if_pos hr, if_pos hr]
  rw [if_neg hr, if_neg hr]
  by_cases hh : (f.header (ipos + i - trailer.memberSize)).check = false
  · rw [if_pos hh, if_pos hh]
    exact ih _ (by omega) (by omega)
  rw [if_neg hh, if_neg hh]
  refine congrArg (some ∘ ScanResult.done) (trailingDecision_congr _ _ _ _ _ _ _ _ _ _ _ rfl ?_)
  intro k hk
  simp only [header2At]
  rw [if_pos (by omega)]
  exact hbuf _ (by omega)

theorem blockLoopChecked_eq : ∀ (reads : Nat) (buffer buffer' : Nat → UInt8)
    (bsize search_size rd_size ipos : Nat), ipos % blockSize = 0 → ipos / blockSize < reads →
    26 ≤ bsize → bsize ≤ bufferSize → rd_size ≤ bsize → search_size ≤ bsize →
    ipos + bsize ≤ pos →
    (∀ k, rd_size ≤ k → k < bsize → buffer k = f.byte (ipos + k) ∧ buffer' k = f.byte (ipos + k)) →
    blockLoopChecked junk f opts pos idx reads buffer bsize search_size rd_size ipos =
      some (blockLoop f opts pos idx buffer' bsize search_size rd_size ipos)
  | 0, _, _, _, _, _, _, _, hreads, _, _, _, _, _, _ => absurd hreads (Nat.not_lt_zero _)
  | reads + 1, buffer, buffer', bsize, search_size, rd_size, ipos, hmod, hreads, h26, hbs, hrd,
      hss, hpos, hbuf => by
    rw [blockLoopChecked, if_neg (not_not.2 ⟨hmod, hbs, by simp only [bufferSize_eq] at *; omega,
      by omega⟩), blockLoop]
    by_cases hr : f.readCount rd_size ipos ≠ rd_size
    · rw [if_pos hr, if_pos hr]
    rw [if_neg hr, if_neg hr]
    dsimp only
    have hread (b : Nat → UInt8) (hb : ∀ k, rd_size ≤ k → k < bsize → b k = f.byte (ipos + k))
        (k : Nat) (hk : k < bsize) :
        (if k < rd_size then f.byte (ipos + k) else b k) = f.byte (ipos + k) := by
      by_cases h : k < rd_size
      · rw [if_pos h]
      · rw [if_neg h, hb k (by omega) hk]
    rw [if_neg (not_not.2 ⟨hread buffer fun k h1 h2 => (hbuf k h1 h2).1, hss⟩),
      scanBlockChecked_eq junk f opts pos idx _ _ bsize ipos _
        (fun k hk => (hread buffer (fun k h1 h2 => (hbuf k h1 h2).1) k hk).trans
          (hread buffer' (fun k h1 h2 => (hbuf k h1 h2).2) k hk).symm) hpos search_size hss]
    generalize scanBlock f opts pos idx _ bsize ipos _ search_size = r
    cases r with
    | done r => rfl
    | exhausted =>
      dsimp only
      by_cases h0 : ipos = 0
      · rw [if_pos h0, dif_pos h0]
      simp only [blockSize_eq, bufferSize_eq] at hmod hreads hbs
      rw [if_neg h0, dif_neg h0, if_neg (by simp only [blockSize_eq, bufferSize_eq]; omega)]
      simp only [blockSize_eq, bufferSize_eq]
      refine blockLoopChecked_eq reads _ _ _ _ _ _ (by simp only [blockSize_eq]; omega)
        (by simp only [blockSize_eq]; omega) (by omega) le_rfl (by omega) (by omega) (by omega)
        fun k hk1 hk2 => ?_
      have hk : 16384 ≤ k ∧ k < 16409 := ⟨hk1, hk2⟩
      rw [if_pos hk, if_pos hk,
        hread buffer (fun k h1 h2 => (hbuf k h1 h2).1) _ (by omega),
        hread buffer' (fun k h1 h2 => (hbuf k h1 h2).2) _ (by omega)]
      exact ⟨congrArg _ (by omega), congrArg _ (by omega)⟩

end Checked

/-- For every file content, every `pos` and whatever the uninitialized buffer holds,
`skip_trailing_data` starts with `bsize` in `[26, buffer_size]` and `ipos = pos - bsize`
block aligned; every later `ipos -= block_size` stays non-negative and aligned; every
seek_read, of a block or of a header, lies in `[0, pos)`; every byte of `buffer` it reads
(`i-1`, `i-9`, the trailer at `i-20`, the bytes of `header2` the tests look at) lies in
`[0, bsize)`; at each search the buffer holds the file bytes `[ipos, ipos + bsize)`; and
it returns after at most `pos / 16384 + 1` block reads, with the model's result. -/
theorem skipTrailingData_noFault (junk : Nat → UInt8) (f : InFile) (idx : LzipIndex)
    (pos : Nat) (opts : ClOptions) :
    skipTrailingDataChecked junk f idx pos opts = some (skipTrailingData f idx pos opts) := by
  rw [skipTrailingDataChecked, skipTrailingData]
  by_cases h36 : pos < minMemberSize
  · rw [if_pos h36, if_pos h36]
  rw [if_neg h36, if_neg h36]
  dsimp only
  simp only [minMemberSize_eq] at h36
  generalize hb : (if pos % blockSize ≤ bufferSize - blockSize then pos % blockSize + blockSize
    else pos % blockSize) = bsize
  obtain ⟨h26, hbs, hle, hmod⟩ := firstBlock_bounds (by omega) hb
  rw [if_neg (not_not.2 ⟨h26, hbs, hle⟩)]
  exact blockLoopChecked_eq junk f opts pos idx _ junk (fun _ => 0) bsize bsize bsize (pos - bsize)
    hmod (by simp only [blockSize_eq]; omega) h26 hbs le_rfl le_rfl (by omega) fun k h1 h2 => by omega

end LzipIndex
end Lzip
