import Lzip.Compress
import Lzip.FileLoop

/-! The two models of a volume switch inside `compress` (list.cc): the member loop of
`Compress` answers `next_filename()` and `open_outstream` per pass, and `FileLoop.switchLoop`,
which `main` runs for `compress`, computes the next volume name and records the files it
creates. Fed the switches a run of the member loop makes, `switchLoop` returns what
`compress` returns, and every volume the member loop closes is followed by a created volume,
but for the last one when `compress` returns 1 there. -/
namespace Lzip
namespace VolumeSwitch

open Compress FileLoop Names

/-- The passes of a run of the member loop that switch volumes: those whose pass closes a
volume. -/
def switchPasses (a : CompressArgs) : CompressState → List Iteration → List Iteration
  | _, [] => []
  | s, it :: its =>
    let sw := if s.volumes.length < (compressStep a s it).state.volumes.length then [it] else []
    match compressStep a s it with
    | .next s' => sw ++ switchPasses a s' its
    | .stop .. => sw

/-- The answers of `next_filename()` in the passes `its` are those `nextFilename` gives on the
volume names from `name` on. -/
def namesAgree : List Char → List Iteration → Bool
  | _, [] => true
  | name, it :: its =>
    it.next_filename == (nextFilename name).1 && namesAgree (nextFilename name).2 its

theorem compressStep_cases (a : CompressArgs) (s : CompressState) (it : Iteration) :
    (∃ s₁ : CompressState, s₁.volumes = s.volumes ∧ compressStep a s it = switchVolume a it s₁) ∨
      (compressStep a s it).state.volumes = s.volumes := by
  unfold compressStep
  generalize it.encode _ = r
  dsimp only
  split_ifs <;> first | exact .inr rfl | (refine .inl ⟨_, ?_, rfl⟩; rfl)

/-- The switches of the member loop, with every close succeeding, drive `switchLoop` to the
value `compress` returns, provided the names agree; each volume the member loop closes is
followed by a created volume, but for the last when `compress` returns 1 there. -/
theorem switchLoop_compressLoop (a : CompressArgs) (ha : a.delete_output_on_interrupt = true) :
    ∀ (its : List Iteration) (s : CompressState) (v : LoopVars) {r : Nat} {m : Option String}
      {s' : CompressState},
    namesAgree v.output_filename (switchPasses a s its) = true →
    compressLoop a s its = .stop r m s' →
    ∃ v', switchLoop r v ((switchPasses a s its).map fun it => ⟨true, it.open_outstream⟩) =
        .ret r v' ∧
      (v'.created.length + s.volumes.length = v.created.length + s'.volumes.length ∨
        r = 1 ∧ v'.created.length + s.volumes.length + 1 = v.created.length + s'.volumes.length)
  | [], _, _, _, _, _, _, h => by cases h
  | it :: its, s, v, r, m, s', hn, h => by
    rcases compressStep_cases a s it with ⟨s₁, hs₁, hst⟩ | hst
    · /- the pass switches volumes: `switchLoop` closes the volume and takes the next name -/
      have hlen : (closeVolume s₁).volumes.length = s.volumes.length + 1 := by
        simp [closeVolume, hs₁]
      rcases hx : nextFilename v.output_filename with ⟨ok, name⟩
      cases hnf : it.next_filename <;> cases hop : it.open_outstream <;>
        simp only [switchPasses, compressLoop, hst, switchVolume, ha, hnf, hop, Bool.not_false,
          Bool.not_true, if_true, if_false, Bool.false_eq_true, Pass.state, hlen, Nat.lt_succ_self,
          List.singleton_append, List.map_cons, List.map_nil, namesAgree, Bool.and_eq_true,
          beq_iff_eq, hx, Pass.stop.injEq] at hn h ⊢
      case true.true =>
        /- the next volume is created, and the run goes on -/
        obtain ⟨rfl, hn⟩ := hn
        simp only [switchLoop, hx, Bool.not_true, if_false, Bool.false_eq_true]
        obtain ⟨v', hrun, hc⟩ := switchLoop_compressLoop a ha its _
          { v with outfd := .file, delete_output_on_interrupt := true, output_filename := name,
                   created := v.created ++ [name] } hn h
        refine ⟨v', hrun, ?_⟩
        simp only [List.length_append, List.length_singleton, hlen] at hc
        omega
      all_goals
        /- `next_filename()` fails, or the next volume is not created: both return 1 -/
        obtain ⟨rfl, -, rfl⟩ := h
        obtain ⟨rfl, -⟩ := hn
        simp only [switchLoop, hx, Bool.not_true, Bool.not_false, if_true, if_false,
          Bool.false_eq_true]
        exact ⟨_, rfl, .inr ⟨trivial, by simp only [hlen]; omega⟩⟩
    · /- the pass closes no volume -/
      have hlt : ¬s.volumes.length < (compressStep a s it).state.volumes.length := by
        rw [hst]; exact lt_irrefl _
      simp only [switchPasses, compressLoop, hlt, if_false, List.nil_append] at hn h ⊢
      generalize compressStep a s it = p at hst hn h ⊢
      cases p with
      | next s₁ =>
        obtain ⟨v', hrun, hc⟩ := switchLoop_compressLoop a ha its s₁ v hn h
        exact ⟨v', hrun, by rwa [← hst]⟩
      | stop r₁ m₁ s₁ =>
        cases h
        exact ⟨v, rfl, .inl (by rw [← hst]; rfl)⟩

example :
    ∃ v', switchLoop 0 ⟨0, 0, false, .file, "a00001.lz".toList, true, [], [], ["a00001.lz".toList]⟩
        ((switchPasses ⟨100000, 250000, true⟩ .init fillingPasses).map
          fun it => ⟨true, it.open_outstream⟩) = .ret 0 v' ∧
      (v'.created.length = 2 ∨ 0 = 1 ∧ v'.created.length + 1 = 2) :=
  @switchLoop_compressLoop ⟨100000, 250000, true⟩ rfl fillingPasses .init
    ⟨0, 0, false, .file, "a00001.lz".toList, true, [], [], ["a00001.lz".toList]⟩ 0 none
    ⟨0, [250000], 100000⟩ (by decide) (by decide)

end VolumeSwitch
end Lzip
