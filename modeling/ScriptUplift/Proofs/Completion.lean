import Mathlib.Data.List.Basic
import Mathlib.Tactic.Common
import ScriptUplift.Proofs.Handoff
import ScriptUplift.Proofs.MemberOrder
import ScriptUplift.Proofs.Tally

namespace ScriptUplift

/-!
# Every configured run completes

The only stage that can refuse a file is member order, and it refuses exactly
the files with an orphaned line, as they are.  A consistent file has no such
line, and the stages before member order hand over a consistent file, so a
pipeline built from known rule names never fails.
-/

namespace Source

/-- A consistent file has no orphaned line. -/
theorem Consistent.category_ne_orphan
    {source : Source}
    (consistent : source.Consistent)
    {line : Line}
    (member : line ∈ source.lines) :
    line.category ≠ .orphan := by
  rw [← consistent.fresh] at member
  exact category_ne_orphan_of_mem_refreshLines member

/-- Member order refuses exactly the files with an orphaned line. -/
theorem canonicalStage_refuses_iff
    (source : Source) :
    source.canonicalStage.2.isSome = true ↔
      ∃ line ∈ source.lines, line.category = .orphan := by
  unfold canonicalStage
  dsimp only
  cases found : source.lines.find? (·.category == .orphan) with
  | none =>
      have noOrphan : ¬ ∃ line ∈ source.lines, line.category = .orphan := by
        rintro ⟨line, member, orphan⟩
        have other := List.find?_eq_none.mp found line member
        simp [orphan] at other
      simp only [noOrphan, iff_false]
      split <;> simp
  | some line =>
      have orphan := List.find?_some found
      simp only [Option.isSome_some, true_iff]
      exact ⟨line, List.mem_of_find?_eq_some found, by simpa using orphan⟩

/-- A refusal blames the file for a broken contract and only makes the counter known. -/
theorem canonicalStage_refusal
    {source : Source}
    {fault : Fault}
    (refused : source.canonicalStage.2 = some fault) :
    (∃ details,
        fault = .onFile .precondition source.path (.because .contract details)) ∧
      source.canonicalStage.1 = source.register [Canonical.reorderCounter] := by
  unfold canonicalStage at refused ⊢
  dsimp only at refused ⊢
  cases found : source.lines.find? (·.category == .orphan) with
  | none =>
      rw [found] at refused
      dsimp only at refused
      split at refused <;> simp at refused
  | some line =>
      rw [found] at refused
      have same : source.orphanFault line = fault := by
        simpa using refused
      exact ⟨⟨_, same.symm⟩, rfl⟩

/-- Member order leaves a file as it is, or arranges its lines and counts that. -/
theorem canonicalStage_fst
    (source : Source) :
    source.canonicalStage.1 = source.register [Canonical.reorderCounter] ∨
      source.canonicalStage.1 =
        ({ source.register [Canonical.reorderCounter] with
          lines := Canonical.arrange (MemberSplit.ofLines source.lines) }).count
          Canonical.reorderCounter 1 := by
  unfold canonicalStage
  dsimp only
  split
  · exact .inl rfl
  · split
    · exact .inl rfl
    · exact .inr rfl

@[simp] theorem canonicalStage_unit
    (source : Source) :
    source.canonicalStage.1.unit = source.unit := by
  rcases source.canonicalStage_fst with same | arranged
  · rw [same]
    rfl
  · rw [arranged]
    rfl

/-- Member order counts under its own name only. -/
theorem count_canonicalStage
    (source : Source)
    {name : String}
    (apart : name ≠ Canonical.reorderCounter) :
    source.canonicalStage.1.report.counters.count name = source.report.counters.count name := by
  rcases source.canonicalStage_fst with same | arranged
  · rw [same]
    exact Tally.count_register _ _ _
  · rw [arranged]
    simp [count, register, Report.add, Report.register, apart]

/-- Member order regroups the lines of a file. -/
theorem regrouped_canonicalStage
    (source : Source) :
    Canonical.Regrouped source.lines source.canonicalStage.1.lines := by
  rcases source.canonicalStage_fst with same | arranged
  · rw [same]
    exact .refl _
  · rw [arranged]
    exact Canonical.regrouped_arrange source.lines

end Source

theorem UpliftRule.ofName?_name
    (rule : UpliftRule) :
    ofName? rule.name = some rule := by
  cases rule <;> decide

namespace Pipeline

/-- A configuration whose disabled rules all exist has a pipeline. -/
theorem ofConfig_eq_ok
    {config : Config}
    (known : ∀ name ∈ config.disabledRules, ∃ rule : UpliftRule, rule.name = name) :
    ofConfig config = .ok ⟨stagesOf config, countersOf config⟩ := by
  have noUnknown : unknownRule? config = none := by
    unfold unknownRule?
    rw [Option.map_eq_none_iff, List.find?_eq_none]
    intro name member
    obtain ⟨rule, rfl⟩ := known name member
    simp [UpliftRule.ofName?_name]
  unfold ofConfig
  rw [noUnknown]

/-- An accepted configuration has the pipeline of its stages and counters. -/
theorem eq_of_ofConfig_eq_ok
    {config : Config}
    {pipeline : Pipeline}
    (accepted : ofConfig config = .ok pipeline) :
    pipeline = ⟨stagesOf config, countersOf config⟩ := by
  unfold ofConfig at accepted
  split at accepted
  · cases accepted
  · exact (Except.ok.inj accepted).symm

/-- The file that enters the first stage. -/
def opened
    (config : Config)
    (path : String)
    (content : Text) :
    Source :=
  (Source.ofContent path content).register (countersOf config)

/-- The file after classification. -/
def classified
    (config : Config)
    (path : String)
    (content : Text) :
    Source :=
  (opened config path content).classifyStage (.ofName config.indentStyle) config.indentWidth

/-- The file after uplift. -/
def uplifted
    (config : Config)
    (path : String)
    (content : Text) :
    Source :=
  (classified config path content).upliftStage (UpliftRule.enabled config.disabledRules)

/-- The file after all repairs, before member order. -/
def repaired
    (config : Config)
    (path : String)
    (content : Text) :
    Source :=
  (uplifted config path content).indentStage.orphanStage config.wrapperName

/-- The file a configured run ends with. -/
def migrated
    (config : Config)
    (path : String)
    (content : Text) :
    Source :=
  if config.canonical then (repaired config path content).canonicalStage.1
  else repaired config path content

theorem classified_consistent
    (config : Config)
    (path : String)
    (content : Text) :
    (classified config path content).Consistent :=
  Source.classifyStage_consistent _ _ _

theorem uplifted_consistent
    (config : Config)
    (path : String)
    (content : Text) :
    (uplifted config path content).Consistent :=
  (classified_consistent config path content).upliftStage _

theorem repaired_consistent
    (config : Config)
    (path : String)
    (content : Text) :
    (repaired config path content).Consistent :=
  (uplifted_consistent config path content).indentStage.orphanStage _

/-- Member order accepts a repaired file. -/
theorem canonicalStage_repaired
    (config : Config)
    (path : String)
    (content : Text) :
    (repaired config path content).canonicalStage.2 = none := by
  rw [← Option.not_isSome_iff_eq_none, Source.canonicalStage_refuses_iff]
  rintro ⟨line, member, orphan⟩
  exact (repaired_consistent config path content).category_ne_orphan member orphan

/-- A configured run succeeds with the migrated file. -/
theorem run_eq_migrated
    {config : Config}
    {pipeline : Pipeline}
    (accepted : ofConfig config = .ok pipeline)
    (path : String)
    (content : Text) :
    pipeline.run path content = (migrated config path content, .done) := by
  rw [eq_of_ofConfig_eq_ok accepted]
  have repairs (rest : List Stage) :
      runStages path
          ([.classify config.indentStyle config.indentWidth,
            .uplift (UpliftRule.enabled config.disabledRules),
            .indent,
            .orphan config.wrapperName] ++ rest)
          (opened config path content) =
        runStages path rest (repaired config path content) :=
    rfl
  have whole :
      run ⟨stagesOf config, countersOf config⟩ path content =
        runStages path (if config.canonical then [.canonicalize] else [])
          (repaired config path content) :=
    repairs _
  rw [whole]
  unfold migrated
  split
  · have accepts := canonicalStage_repaired config path content
    simp only [runStages, Stage.canonicalize]
    cases ordered : (repaired config path content).canonicalStage with
    | mk result refusal =>
        rw [ordered] at accepts
        dsimp only at accepts
        rw [accepts]
  · rfl

/-- A migrated file has the lines of the repaired one, and separators. -/
theorem mem_repaired_or_separator
    {config : Config}
    {path : String}
    {content : Text}
    {line : Line}
    (member : line ∈ (migrated config path content).lines) :
    line ∈ (repaired config path content).lines ∨ line = Canonical.separator := by
  unfold migrated at member
  split at member
  · exact (repaired config path content).regrouped_canonicalStage.mem_or_separator member
  · exact .inl member

/-- No line of the migrated file is an orphan. -/
theorem category_ne_orphan_of_mem_migrated
    {config : Config}
    {path : String}
    {content : Text}
    {line : Line}
    (member : line ∈ (migrated config path content).lines) :
    line.category ≠ .orphan := by
  rcases mem_repaired_or_separator member with old | rfl
  · exact (repaired_consistent config path content).category_ne_orphan old
  · decide

end Pipeline

end ScriptUplift
