import Lzip.Format
import Mathlib.Data.List.Nodup

/-! The output names of main.cc: `extension_index`, `set_c_outname`, `set_d_outname`, and
`next_filename`, which steps the five-digit volume counter of a multi-volume output. File
names are lists of characters. -/
namespace Lzip
namespace Names

open Format

/-- `known_extensions`: each extension with the one that replaces it on decompression. -/
def knownExtensions : List (List Char × List Char) :=
  [(".lz".toList, []), (".tlz".toList, ".tar".toList)]

/-- The loop of `extension_index` from entry `eindex` on: the first extension that `name`
is longer than and ends with. -/
def extensionLoop (name : List Char) : List (List Char × List Char) → Nat → Option Nat
  | [], _ => none
  | (ext, _) :: exts, eindex =>
    if name.length > ext.length ∧ name.drop (name.length - ext.length) = ext then some eindex
    else extensionLoop name exts (eindex + 1)

/-- `extension_index( name )`; `none` is the code's -1. -/
def extensionIndex (name : List Char) : Option Nat := extensionLoop name knownExtensions 0

/-- `set_c_outname( name, filenames_given, force_ext, multifile )`: a multi-volume name
gets the counter `00001`, and the name gets `known_extensions[0].from` when forced, for
volumes, or when reading standard input into a name without a known extension. -/
def setCOutname (name : List Char) (filenames_given force_ext multifile : Bool) : List Char :=
  let output_filename := if multifile then name ++ "00001".toList else name
  if force_ext = true ∨ multifile = true ∨
      (filenames_given = false ∧ extensionIndex output_filename = none) then
    output_filename ++ ".lz".toList
  else output_filename

/-- `set_d_outname( name, eindex )`: the known extension replaced by its counterpart, or
`.out` appended when there is none or nothing would be left of the name. -/
def setDOutname (name : List Char) (eindex : Option Nat) : List Char :=
  match eindex.bind knownExtensions.get? with
  | some (ext_from, ext_to) =>
    if name.length > ext_from.length then name.take (name.length - ext_from.length) ++ ext_to
    else name ++ ".out".toList
  | none => name ++ ".out".toList

/-- The loop of `next_filename` over the five characters before the extension, the last
first (`cs` is that run reversed): a character below `9` is raised by one and ends the
loop with `true`; any other becomes `0` and the carry goes on. -/
def carryLoop : List Char → Bool × List Char
  | [] => (false, [])
  | c :: cs =>
    if c < '9' then (true, Char.ofNat (c.toNat + 1) :: cs)
    else
      let (ok, cs) := carryLoop cs
      (ok, '0' :: cs)

/-- `next_filename()`: whether there is a next volume name, and the name it leaves
(`ext_len` is the length of `known_extensions[0].from`). -/
def nextFilename (output_filename : List Char) : Bool × List Char :=
  let name_len := output_filename.length
  let ext_len := 3
  if name_len ≥ ext_len + 5 then
    let (ok, counter) :=
      carryLoop ((output_filename.drop (name_len - ext_len - 5)).take 5).reverse
    (ok, output_filename.take (name_len - ext_len - 5) ++ counter.reverse ++
      output_filename.drop (name_len - ext_len))
  else (false, output_filename)

example : nextFilename "foo00009.lz".toList = (true, "foo00010.lz".toList) := by decide

/-! ### Decompression names the file back -/

theorem setDOutname_append_lz (base : List Char) (h : base ≠ []) :
    setDOutname (base ++ ".lz".toList) (extensionIndex (base ++ ".lz".toList)) = base := by
  have hlen : 3 < (base ++ ".lz".toList).length := by simpa using List.length_pos.2 h
  have hdrop : (base ++ ".lz".toList).drop ((base ++ ".lz".toList).length - 3) = ".lz".toList := by
    simp [List.drop_append_eq_append_drop]
  have hidx : extensionIndex (base ++ ".lz".toList) = some 0 := by
    rw [extensionIndex, knownExtensions, extensionLoop, if_pos ⟨hlen, hdrop⟩]
  rw [hidx, setDOutname]
  simp only [Option.some_bind, knownExtensions, List.get?_cons_zero]
  rw [if_pos (show (base ++ ".lz".toList).length > ".lz".toList.length from hlen)]
  simp

/-- Decompressing a file that compression named gives its name back, as `main` calls them for
one output per input (`multifile` is `volume_size > 0`): for every nonempty name, whatever
extension it already had, `set_d_outname` undoes `set_c_outname`, and with `--volume-size`
the first volume's counter `00001` stays in the name. -/
theorem setDOutname_setCOutname (name : List Char) (multifile : Bool) (h : name ≠ []) :
    setDOutname (setCOutname name true true multifile)
      (extensionIndex (setCOutname name true true multifile)) =
      if multifile then name ++ "00001".toList else name := by
  have hc : setCOutname name true true multifile =
      (if multifile then name ++ "00001".toList else name) ++ ".lz".toList := by
    cases multifile <;> simp [setCOutname]
  rw [hc]
  exact setDOutname_append_lz _ (by split <;> simp [h])

theorem setDOutname_setCOutname_foo :
    "foo".toList ≠ [] ∧ setDOutname (setCOutname "foo".toList true true true)
      (extensionIndex (setCOutname "foo".toList true true true)) =
      if true then "foo".toList ++ "00001".toList else "foo".toList :=
  ⟨by decide, setDOutname_setCOutname _ true (by decide)⟩

/-! ### Volume names -/

def revDigits : Nat → Nat → List Char
  | 0, _ => []
  | n + 1, v => digitChar (v % 10) :: revDigits n (v / 10)

/-- The name of volume `k` of the output `name`: `k` in five digits, then `.lz`. -/
def volumeName (name : List Char) (k : Nat) : List Char :=
  name ++ (revDigits 5 k).reverse ++ ".lz".toList

/-- The names of the volumes opened after the first one is `name`, over `n` switches; `none`
when a switch finds no next name. -/
def switchNames : Nat → List Char → Option (List (List Char))
  | 0, name => some [name]
  | n + 1, name =>
    match nextFilename name with
    | (true, next) => (switchNames n next).map (name :: ·)
    | (false, _) => none

theorem digitChar_lt_nine : ∀ d < 10, (digitChar d < '9' ↔ d < 9) ∧
    (d < 9 → Char.ofNat ((digitChar d).toNat + 1) = digitChar (d + 1)) ∧ digitChar 0 = '0' := by
  decide

theorem length_revDigits (n v : Nat) : (revDigits n v).length = n := by
  induction n generalizing v with
  | zero => rfl
  | succ n ih => simp [revDigits, ih]

theorem carryLoop_revDigits : ∀ n v, v < 10 ^ n →
    carryLoop (revDigits n v) =
      if v + 1 < 10 ^ n then (true, revDigits n (v + 1)) else (false, revDigits n 0)
  | 0, v, h => by simp_all [revDigits, carryLoop]
  | n + 1, v, h => by
    have hd := digitChar_lt_nine (v % 10) (Nat.mod_lt _ (by omega))
    rw [revDigits, carryLoop]
    by_cases h9 : v % 10 < 9
    · rw [if_pos (hd.1.2 h9), if_pos (show v + 1 < 10 ^ (n + 1) by
        rw [Nat.pow_succ]; omega), revDigits, hd.2.1 h9,
        show (v + 1) % 10 = v % 10 + 1 by omega, show (v + 1) / 10 = v / 10 by omega]
    · rw [if_neg (mt hd.1.1 h9)]
      have hv : v / 10 < 10 ^ n := by rw [Nat.pow_succ] at h; omega
      rw [carryLoop_revDigits n (v / 10) hv]
      have h10 : (v + 1) % 10 = 0 ∧ (v + 1) / 10 = v / 10 + 1 := by omega
      by_cases hc : v / 10 + 1 < 10 ^ n
      · rw [if_pos hc, if_pos (by rw [Nat.pow_succ]; omega), revDigits, h10.1, h10.2, hd.2.2]
      · rw [if_neg hc, if_neg (by rw [Nat.pow_succ]; omega), revDigits, Nat.zero_mod,
          Nat.zero_div, hd.2.2]

theorem nextFilename_volumeName (name : List Char) (k : Nat) (hk : k < 100000) :
    nextFilename (volumeName name k) =
      if k + 1 < 100000 then (true, volumeName name (k + 1))
      else (false, name ++ (revDigits 5 0).reverse ++ ".lz".toList) := by
  have hlen := length_revDigits 5 k
  have hlen' : (volumeName name k).length = name.length + 8 := by
    simp [volumeName, hlen]
  unfold nextFilename
  rw [if_pos (by omega), hlen']
  have hcounter : ((volumeName name k).drop (name.length + 8 - 3 - 5)).take 5 =
      (revDigits 5 k).reverse := by
    simp [volumeName, List.drop_append_eq_append_drop, List.take_append_eq_append_take, hlen]
  have hhead : (volumeName name k).take (name.length + 8 - 3 - 5) = name := by
    simp [volumeName]
  have hext : (volumeName name k).drop (name.length + 8 - 3) = ".lz".toList := by
    simp [volumeName, List.drop_append_eq_append_drop, hlen]
  rw [hcounter, hhead, hext, List.reverse_reverse, carryLoop_revDigits 5 k hk,
    show (10 : Nat) ^ 5 = 100000 from rfl]
  split_ifs <;> rfl

theorem volumeName_injective (name : List Char) {k k' : Nat} (hk : k < 100000)
    (hk' : k' < 100000) (h : volumeName name k = volumeName name k') : k = k' := by
  simp only [volumeName, List.append_assoc, List.append_cancel_left_eq,
    List.append_cancel_right_eq, List.reverse_inj] at h
  simp only [revDigits, List.cons.injEq] at h
  obtain ⟨h0, h1, h2, h3, h4, -⟩ := h
  have inj : ∀ {a b : Nat}, a < 10 → b < 10 → digitChar a = digitChar b → a = b := by
    intro a b ha hb hab
    have := congrArg Char.toNat hab
    rw [(digitChar_spec a ha).1, (digitChar_spec b hb).1] at this
    omega
  have e0 := inj (Nat.mod_lt _ (by omega)) (Nat.mod_lt _ (by omega)) h0
  have e1 := inj (Nat.mod_lt _ (by omega)) (Nat.mod_lt _ (by omega)) h1
  have e2 := inj (Nat.mod_lt _ (by omega)) (Nat.mod_lt _ (by omega)) h2
  have e3 := inj (Nat.mod_lt _ (by omega)) (Nat.mod_lt _ (by omega)) h3
  have e4 := inj (Nat.mod_lt _ (by omega)) (Nat.mod_lt _ (by omega)) h4
  omega

theorem switchNames_volumeName (name : List Char) : ∀ n k, k + n < 100000 →
    switchNames n (volumeName name k) =
      some ((List.range (n + 1)).map fun i => volumeName name (k + i))
  | 0, k, _ => rfl
  | n + 1, k, h => by
    rw [switchNames, nextFilename_volumeName name k (by omega), if_pos (by omega)]
    dsimp only
    have hf : ((fun i => volumeName name (k + i)) ∘ Nat.succ) =
        fun i => volumeName name (k + 1 + i) := by
      funext i
      simp only [Function.comp, Nat.succ_eq_add_one, Nat.add_assoc, Nat.add_comm 1 i]
    rw [switchNames_volumeName name n (k + 1) (by omega), List.range_succ_eq_map (n + 1),
      List.map_cons, List.map_map, hf, Option.map_some']
    rfl

theorem switchNames_none (name : List Char) : ∀ n k, k < 100000 → 100000 ≤ k + n →
    switchNames n (volumeName name k) = none
  | 0, _, hk, h => by omega
  | n + 1, k, hk, h => by
    rw [switchNames, nextFilename_volumeName name k hk]
    split_ifs with hk1
    · dsimp only
      rw [switchNames_none name n (k + 1) hk1 (by omega), Option.map_none']
    · rfl

/-- The names a multi-volume compression opens: `set_c_outname` gives volume 00001, each
successful `next_filename` the next counter, so the first `n + 1` volumes get `n + 1`
different names (no volume overwrites another); the 99999th switch finds no name, so a
run has at most 99999 volumes. -/
theorem volumeNames_spec (base : List Char) (filenames_given force_ext : Bool) :
    (∀ n, switchNames n (setCOutname base filenames_given force_ext true) =
      if n < 99999 then some ((List.range (n + 1)).map fun i => volumeName base (i + 1))
      else none) ∧
    ∀ n < 99999, ((List.range (n + 1)).map fun i => volumeName base (i + 1)).Nodup := by
  have hfirst : setCOutname base filenames_given force_ext true = volumeName base 1 := by
    simp [setCOutname, volumeName]; decide
  refine ⟨fun n => ?_, fun n hn => ?_⟩
  · rw [hfirst]
    split_ifs with hn
    · rw [switchNames_volumeName base n 1 (by omega)]
      simp only [Nat.add_comm 1]
    · exact switchNames_none base n 1 (by decide) (by omega)
  · refine List.Nodup.map_on (fun i hi j hj hij => ?_) (List.nodup_range _)
    have := volumeName_injective base (by simp at hi; omega) (by simp at hj; omega) hij
    omega

end Names
end Lzip
