import Lzip.Basic

/-! The member loop of `compress` (list.cc): one member per pass, each asked to stop at
`min( member_size, volume_size - partial_volume_size )` bytes, and a volume switch once
`partial_volume_size` reaches `volume_size - min_dictionary_size`. The encoder is an
oracle: each pass receives what `encode_member( size )` reports for the size it asked
for, so every encoder is covered. Beside the source's variables the state records the
bytes written to each volume, the `member_position` totals between two switches. -/
namespace Lzip.Compress

/-- `x - y` in `unsigned long long`. -/
def sub64 (x y : Nat) : Nat := (x + 2 ^ 64 - y) % 2 ^ 64

theorem sub64_of_le {x y : Nat} (hy : y ≤ x) (hx : x < 2 ^ 64) : sub64 x y = x - y := by
  rw [sub64, show x + 2 ^ 64 - y = x - y + 2 ^ 64 by omega, Nat.add_mod_right,
    Nat.mod_eq_of_lt (by omega)]

/-- What the encoder reports after `encode_member( size )`. -/
structure EncodeRun where
  ok : Bool
  member_position : Nat
  data_finished : Bool

/-- One pass as the environment answers it: the encoder's report for each size it may be
asked for, and what `next_filename` and `open_outstream` return should the volume switch. -/
structure Iteration where
  encode : Nat → EncodeRun
  next_filename : Bool
  open_outstream : Bool

/-- The arguments of `compress` the loop reads. `delete_output_on_interrupt` keeps its
value on entry: `close_and_set_permissions` clears it and a switch that goes on has
reopened the stream, which sets it again. -/
structure CompressArgs where
  member_size : Nat
  volume_size : Nat
  delete_output_on_interrupt : Bool

structure CompressState where
  partial_volume_size : Nat
  -- bytes written to each closed volume, in order
  volumes : List Nat
  -- bytes written to the current volume
  current : Nat
deriving DecidableEq

def CompressState.init : CompressState := ⟨0, [], 0⟩

/-- How one pass ends: at the next loop head, or at a `break` with `retval` and the text
`pp` prints (none where `compress` prints nothing itself). -/
inductive Pass where
  | next (s : CompressState)
  | stop (retval : Nat) (message : Option String) (s : CompressState)
deriving DecidableEq

def Pass.state : Pass → CompressState
  | .next s => s
  | .stop _ _ s => s

def requestSize (a : CompressArgs) (partial_volume_size : Nat) : Nat :=
  if a.volume_size > 0 then min a.member_size (sub64 a.volume_size partial_volume_size)
  else a.member_size

/-- `partial_volume_size = 0`; the current volume is closed. -/
def closeVolume (s : CompressState) : CompressState :=
  { partial_volume_size := 0, volumes := s.volumes ++ [s.current], current := 0 }

/-- The branch taken once `partial_volume_size` reached the switch threshold. -/
def switchVolume (a : CompressArgs) (it : Iteration) (s : CompressState) : Pass :=
  let s := closeVolume s
  if a.delete_output_on_interrupt then
    if !it.next_filename then .stop 1 (some "Too many volume files.") s
    else if !it.open_outstream then .stop 1 none s
    else .next s
  else .next s

/-- One pass of `while( true )` in `compress`. -/
def compressStep (a : CompressArgs) (s : CompressState) (it : Iteration) : Pass :=
  let r := it.encode (requestSize a s.partial_volume_size)
  if !r.ok then .stop 1 (some "Encoder error.") s
  else
    let s := { s with current := s.current + r.member_position }
    if r.data_finished then .stop 0 none s
    else if a.volume_size > 0 then
      let p := (s.partial_volume_size + r.member_position) % 2 ^ 64
      if p ≥ sub64 a.volume_size minDictionarySize then
        switchVolume a it { s with partial_volume_size := p }
      else .next { s with partial_volume_size := p }
    else .next s

/-- The loop over the passes the environment answers; when they run out the result is
the loop head reached. -/
def compressLoop (a : CompressArgs) : CompressState → List Iteration → Pass
  | s, [] => .next s
  | s, it :: its =>
    match compressStep a s it with
    | .next s' => compressLoop a s' its
    | .stop r m s' => .stop r m s'

@[simp] theorem switchVolume_state (a : CompressArgs) (it : Iteration) (s : CompressState) :
    (switchVolume a it s).state = closeVolume s := by
  unfold switchVolume
  split_ifs <;> rfl

/-! ## Volumes stay within `volume_size` -/

section Volumes

variable {a : CompressArgs} {s : CompressState} {it : Iteration}

def VolumesWithin (a : CompressArgs) (s : CompressState) : Prop :=
  (∀ v ∈ s.volumes, v ≤ a.volume_size) ∧ s.current ≤ a.volume_size

structure HeadInv (a : CompressArgs) (s : CompressState) : Prop where
  partial_lt : s.partial_volume_size < a.volume_size - minDictionarySize
  current_eq : s.current = s.partial_volume_size
  volumes_le : ∀ v ∈ s.volumes, v ≤ a.volume_size

def Pass.Safe (a : CompressArgs) : Pass → Prop
  | .next s => HeadInv a s
  | .stop _ _ s => VolumesWithin a s

def EncoderBounded (it : Iteration) : Prop :=
  ∀ size, (it.encode size).member_position ≤ size

theorem HeadInv.volumesWithin (hi : HeadInv a s) : VolumesWithin a s :=
  ⟨hi.volumes_le, by have := hi.partial_lt; have := hi.current_eq; omega⟩

theorem Pass.safe_of_headInv {p : Pass} (h : HeadInv a p.state) : p.Safe a := by
  cases p with
  | next s => exact h
  | stop r m s => exact HeadInv.volumesWithin h

theorem Pass.safe_ite {c : Prop} {_ : Decidable c} {x y : Pass} (hx : c → x.Safe a)
    (hy : ¬c → y.Safe a) : (if c then x else y).Safe a := by
  by_cases h : c
  · rw [if_pos h]; exact hx h
  · rw [if_neg h]; exact hy h

theorem headInv_init (hv : minDictionarySize < a.volume_size) : HeadInv a .init :=
  ⟨by simp only [CompressState.init]; omega, rfl, by simp [CompressState.init]⟩

theorem requestSize_of_headInv (hi : HeadInv a s) (hm : minDictionarySize < a.member_size)
    (hv64 : a.volume_size < 2 ^ 64) :
    requestSize a s.partial_volume_size = min a.member_size (a.volume_size - s.partial_volume_size) ∧
      minDictionarySize < requestSize a s.partial_volume_size := by
  have hp := hi.partial_lt
  have hreq : requestSize a s.partial_volume_size =
      min a.member_size (a.volume_size - s.partial_volume_size) := by
    rw [requestSize, if_pos (by omega), sub64_of_le (by omega) hv64]
  exact ⟨hreq, by rw [hreq]; omega⟩

theorem closeVolume_headInv (hv : minDictionarySize < a.volume_size)
    (hvol : ∀ v ∈ s.volumes, v ≤ a.volume_size) (hcur : s.current ≤ a.volume_size) :
    HeadInv a (closeVolume s) :=
  ⟨by simp only [closeVolume]; omega, rfl, by
    simpa only [closeVolume, List.mem_append, List.mem_singleton, forall_eq_or_imp,
      or_imp, forall_and, forall_eq] using ⟨hvol, hcur⟩⟩

theorem compressStep_safe (hi : HeadInv a s) (hm : minDictionarySize < a.member_size)
    (hv : minDictionarySize < a.volume_size) (hv64 : a.volume_size < 2 ^ 64)
    (henc : EncoderBounded it) : (compressStep a s it).Safe a := by
  obtain ⟨hreq, -⟩ := requestSize_of_headInv hi hm hv64
  have hmp := henc (requestSize a s.partial_volume_size)
  have hp := hi.partial_lt
  have hcur := hi.current_eq
  dsimp only [compressStep]
  generalize it.encode (requestSize a s.partial_volume_size) = r at hmp
  rw [hreq] at hmp
  cases hok : r.ok
  case false => exact Pass.safe_of_headInv hi
  case true =>
    have hP := Nat.mod_eq_of_lt (show s.partial_volume_size + r.member_position < 2 ^ 64 by omega)
    have hT := sub64_of_le (show minDictionarySize ≤ a.volume_size by omega) hv64
    generalize (s.partial_volume_size + r.member_position) % 2 ^ 64 = P at hP
    generalize sub64 a.volume_size minDictionarySize = T at hT
    simp only [Bool.not_true, Bool.false_eq_true, if_false]
    rw [if_pos (show a.volume_size > 0 by omega)]
    refine Pass.safe_ite (fun _ => ⟨hi.volumes_le, by simp only; omega⟩) fun _ =>
      Pass.safe_ite (fun _ => Pass.safe_of_headInv ?_) fun hsw => ?_
    · rw [switchVolume_state]
      exact closeVolume_headInv hv hi.volumes_le (by simp only; omega)
    · exact ⟨by simp only; omega, by simp only; omega, hi.volumes_le⟩

/-- Every pass of a run keeps the invariant; a run that stops leaves every volume within
`volume_size`. -/
theorem compressLoop_safe (hm : minDictionarySize < a.member_size)
    (hv : minDictionarySize < a.volume_size) (hv64 : a.volume_size < 2 ^ 64) :
    ∀ (its : List Iteration) (s : CompressState), HeadInv a s →
      (∀ it ∈ its, EncoderBounded it) → (compressLoop a s its).Safe a
  | [], _, hi, _ => hi
  | it :: its, s, hi, henc => by
    have hstep := compressStep_safe hi hm hv hv64 (henc it (List.mem_cons_self _ _))
    unfold compressLoop
    split
    · next s' h =>
      rw [h] at hstep
      exact compressLoop_safe hm hv hv64 its s' hstep fun it h => henc it (List.mem_cons_of_mem _ h)
    · next r m s' h => rwa [h] at hstep

end Volumes

/-- For every volume and member size `getnum` admits and every run of an encoder that
keeps each member within the size it is asked for: at every loop head
`partial_volume_size < volume_size - min_dictionary_size`, the requested size is the exact
`min( member_size, volume_size - partial_volume_size )` and exceeds 4096, and every volume
written, closed or current, holds at most `volume_size` bytes; so does each volume when
the loop stops. -/
theorem compress_volumes_within (a : CompressArgs) (hm : 100000 ≤ a.member_size)
    (hv : 100000 ≤ a.volume_size) (hv64 : a.volume_size < 2 ^ 64) (its : List Iteration)
    (henc : ∀ it ∈ its, ∀ size, (it.encode size).member_position ≤ size) :
    (∀ s, compressLoop a .init its = .next s →
      s.partial_volume_size < a.volume_size - minDictionarySize ∧
      requestSize a s.partial_volume_size =
        min a.member_size (a.volume_size - s.partial_volume_size) ∧
      minDictionarySize < requestSize a s.partial_volume_size ∧
      (∀ v ∈ s.volumes, v ≤ a.volume_size) ∧ s.current ≤ a.volume_size) ∧
    (∀ retval message s, compressLoop a .init its = .stop retval message s →
      (∀ v ∈ s.volumes, v ≤ a.volume_size) ∧ s.current ≤ a.volume_size) := by
  have hm' : minDictionarySize < a.member_size := by simp only [minDictionarySize_eq]; omega
  have hv' : minDictionarySize < a.volume_size := by simp only [minDictionarySize_eq]; omega
  have hrun := compressLoop_safe hm' hv' hv64 its .init (headInv_init hv') henc
  refine ⟨fun s h => ?_, fun r m s h => ?_⟩
  · rw [h] at hrun
    obtain ⟨hreq, hgt⟩ := requestSize_of_headInv hrun hm' hv64
    exact ⟨hrun.partial_lt, hreq, hgt, hrun.volumesWithin⟩
  · rwa [h] at hrun

def fillingPasses : List Iteration :=
  [false, false, false, true].map fun finished => ⟨fun size => ⟨true, size, finished⟩, true, true⟩

theorem compress_volumes_within_fullVolume :
    compressLoop ⟨100000, 250000, true⟩ .init fillingPasses = .stop 0 none ⟨0, [250000], 100000⟩ ∧
      (∀ v ∈ [250000], v ≤ 250000) ∧ 100000 ≤ 250000 :=
  ⟨by decide, (compress_volumes_within ⟨100000, 250000, true⟩ (by decide) (by decide)
    (by decide) fillingPasses (by simp [fillingPasses])).2 0 none ⟨0, [250000], 100000⟩
    (by decide)⟩

end Lzip.Compress
