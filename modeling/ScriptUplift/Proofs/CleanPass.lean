import Mathlib.Tactic.Common
import ScriptUplift.Proofs.Settled

namespace ScriptUplift

/-!
# Passes with nothing to do

A pass leaves content alone when it writes the content back, fixes nothing and
reports nothing.  A configured pass does so exactly on clean content: no stage
finds anything to do, no comment carries a suppression marker, and the content
mixes no line breaks.
-/

namespace Source

theorem distinct_applyEverywhere
    {source : Source}
    (distinct : source.report.counters.Distinct)
    (rule : UpliftRule) :
    (source.applyEverywhere rule).report.counters.Distinct := by
  rcases source.applyEverywhere_cases rule with ⟨_, same⟩ | ⟨total, _, changed⟩
  · rw [same]
    exact distinct
  · rw [changed]
    exact distinct.add _ _

theorem distinct_upliftStage
    {source : Source}
    (distinct : source.report.counters.Distinct)
    (rules : List UpliftRule) :
    (source.upliftStage rules).report.counters.Distinct := by
  have applied (rules : List UpliftRule) {before : Source}
      (beforeDistinct : before.report.counters.Distinct) :
      (rules.foldl applyEverywhere before).report.counters.Distinct := by
    induction rules generalizing before with
    | nil =>
        exact beforeDistinct
    | cons rule rest inductionHypothesis =>
        exact inductionHypothesis (distinct_applyEverywhere beforeDistinct rule)
  exact applied rules (distinct.register _)

theorem distinct_indentStage
    {source : Source}
    (distinct : source.report.counters.Distinct) :
    source.indentStage.report.counters.Distinct := by
  unfold indentStage
  dsimp only
  split
  · exact distinct.register _
  · exact (distinct.register _).add _ _

theorem distinct_orphanStage
    {source : Source}
    (consistent : source.Consistent)
    (distinct : source.report.counters.Distinct)
    (wrapperName : String) :
    (source.orphanStage wrapperName).report.counters.Distinct := by
  cases runs : (Orphan.verdictsOf wrapperName source.lines).any (·.isRun) with
  | false =>
      rw [(orphanStage_of_no_run runs).counters]
      exact distinct.register _
  | true =>
      rw [(orphanStage_of_run consistent.settled runs).counters]
      exact ((distinct.register _).add _ _).add _ _

theorem distinct_canonicalStage
    {source : Source}
    (distinct : source.report.counters.Distinct) :
    source.canonicalStage.1.report.counters.Distinct := by
  rcases source.canonicalStage_fst with same | arranged
  · rw [same]
    exact distinct.register _
  · rw [arranged]
    exact (distinct.register _).add _ _

@[simp] theorem issues_canonicalStage
    (source : Source) :
    source.canonicalStage.1.report.issues = source.report.issues := by
  rcases source.canonicalStage_fst with same | arranged
  · rw [same]
    rfl
  · rw [arranged]
    rfl

end Source

/-- Without a marker no name is declared by suppressed code, and none is reported. -/
theorem issues_eq_nil_iff_unmarked
    (suppressed : List (Text × Nat))
    (lines : List Line) :
    seedIssues lines ++ referenceIssues suppressed (lines.map seedLine) = [] ↔
      ∀ line ∈ lines, Marker.found? line = none := by
  have seeds : seedIssues lines = [] ↔ ∀ line ∈ lines, Marker.found? line = none := by
    simp [seedIssues, List.filterMap_eq_nil_iff]
  rw [List.append_eq_nil_iff, seeds]
  constructor
  · exact And.left
  · intro unmarked
    refine ⟨unmarked, ?_⟩
    unfold referenceIssues
    rw [if_pos]
    simp only [List.all_map, List.all_eq_true, Function.comp_apply]
    intro line isLine
    simp [seedLine, unmarked line isLine]

namespace Source

/-- Orphan repair of a file without runs reports the markers of the file. -/
theorem issues_orphanStage_of_housed
    {source : Source}
    (housed : ∀ line ∈ source.lines, line.leadsIn = false)
    (wrapperName : String)
    (noIssue : source.report.issues = []) :
    (source.orphanStage wrapperName).report.issues = [] ↔
      ∀ line ∈ source.lines, Marker.found? line = none := by
  have noRun : (Orphan.verdictsOf wrapperName source.lines).any (·.isRun) = false := by
    rw [Orphan.any_isRun_verdictsOf]
    simpa using housed
  have kept := orphanStage_of_no_run noRun
  rw [kept.issues, kept.suppressed, noIssue, List.nil_append]
  exact issues_eq_nil_iff_unmarked _ _

/-- A file in which a configured pass finds nothing to do and nothing to report. -/
structure Clean
    (config : Config)
    (source : Source) :
    Prop where
  inRepair : source.InRepair (UpliftRule.enabled config.disabledRules)
  ordered : config.canonical = true → Canonical.Ordered source.placedLines
  unmarked : ∀ line ∈ source.placedLines, Marker.found? line = none

end Source

namespace Pipeline

/-- A pass that completes, writes content back, fixes nothing and reports nothing. -/
def LeavesAlone
    (pipeline : Pipeline)
    (path : String)
    (content : Text) :
    Prop :=
  ∃ source,
    pipeline.run path content = (source, .done) ∧
      source.render = content ∧
      source.report.isZero = true

variable (config : Config) (path : String) (content : Text)

theorem distinct_repaired :
    (repaired config path content).report.counters.Distinct := by
  have classifiedDistinct : (classified config path content).report.counters.Distinct :=
    Tally.distinct_empty.register _
  have upliftedDistinct := Source.distinct_upliftStage classifiedDistinct
    (UpliftRule.enabled config.disabledRules)
  exact Source.distinct_orphanStage (uplifted_consistent config path content).indentStage
    (Source.distinct_indentStage upliftedDistinct) config.wrapperName

theorem distinct_migrated :
    (migrated config path content).report.counters.Distinct := by
  have repairedDistinct := distinct_repaired config path content
  unfold migrated
  split
  · exact Source.distinct_canonicalStage repairedDistinct
  · exact repairedDistinct

/-- A configured pass counts nothing exactly when its stages find nothing to do. -/
theorem migrated_idle :
    let source := classified config path content
    let idle :=
      source.InRepair (UpliftRule.enabled config.disabledRules) ∧
        (config.canonical = true → Canonical.Ordered source.placedLines)
    Source.Follows source (migrated config path content) ∧
      (Source.Quiet source (migrated config path content) ↔ idle) ∧
      (idle → (migrated config path content).texts = source.texts) := by
  intro source idle
  have consistent := classified_consistent config path content
  by_cases canonical : config.canonical = true
  · rw [migrated_eq_stages canonical]
    obtain ⟨follows, quietIff, keeps⟩ :=
      consistent.stages_idle (UpliftRule.enabled config.disabledRules) config.wrapperName
    have idleIff : idle ↔ source.Settled (UpliftRule.enabled config.disabledRules) := by
      rw [Source.settled_iff]
      simp [idle, canonical]
    rw [idleIff]
    exact ⟨follows, quietIff, keeps⟩
  · have unordered :
        migrated config path content =
          ((source.upliftStage
            (UpliftRule.enabled config.disabledRules)).indentStage.orphanStage
              config.wrapperName) := by
      unfold migrated repaired uplifted
      rw [if_neg canonical]
    rw [unordered]
    obtain ⟨follows, quietIff, keeps⟩ :=
      consistent.repairs_idle (UpliftRule.enabled config.disabledRules) config.wrapperName
    have idleIff : idle ↔ source.InRepair (UpliftRule.enabled config.disabledRules) := by
      simp [idle, canonical]
    rw [idleIff]
    refine ⟨follows, quietIff, ?_⟩
    intro inRepair
    unfold Source.texts
    rw [keeps inRepair]
    exact inRepair.placed

/-- A configured pass fixes nothing exactly when it counts nothing under any name. -/
theorem fixes_migrated_eq_zero_iff :
    (migrated config path content).report.fixes = 0 ↔
      Source.Quiet (classified config path content) (migrated config path content) := by
  have follows := (migrated_idle config path content).1
  have nonnegative (name : String) :
      0 ≤ (migrated config path content).report.counters.count name := by
    have grown := follows.grown name
    rwa [counted_classified] at grown
  unfold Report.fixes Source.Quiet
  rw [Tally.total_eq_zero_iff (distinct_migrated config path content) nonnegative]
  simp only [counted_classified]
  rfl

/-- The stages before member order report nothing in a file in repair exactly when it is unmarked. -/
theorem issues_repaired_of_inRepair
    (inRepair :
      (classified config path content).InRepair (UpliftRule.enabled config.disabledRules)) :
    (repaired config path content).report.issues = [] ↔
      ∀ line ∈ (classified config path content).placedLines, Marker.found? line = none := by
  have inPlace :
      (uplifted config path content).indentStage.lines =
        (classified config path content).placedLines :=
    Source.repairs_lines_of_idle inRepair.uplifted inRepair.placed
  have noIssue : (uplifted config path content).indentStage.report.issues = [] := by
    unfold uplifted
    rw [Source.upliftStage_of_unmatched inRepair.uplifted]
    unfold Source.indentStage
    dsimp only
    split <;> rfl
  have housed := inRepair.housed
  rw [← inPlace] at housed ⊢
  rw [repaired]
  exact Source.issues_orphanStage_of_housed housed config.wrapperName noIssue

theorem issues_migrated :
    (migrated config path content).report.issues =
      (repaired config path content).report.issues := by
  unfold migrated
  split
  · exact Source.issues_canonicalStage _
  · rfl

/-- A configured pass leaves content alone exactly when it is clean and mixes no line breaks. -/
theorem leavesAlone_iff_clean
    {pipeline : Pipeline}
    (accepted : ofConfig config = .ok pipeline) :
    pipeline.LeavesAlone path content ↔
      (classified config path content).Clean config ∧ Source.mixesEndings content = false := by
  obtain ⟨follows, quietIff, keeps⟩ := migrated_idle config path content
  have aloneIff :
      pipeline.LeavesAlone path content ↔
        (migrated config path content).render = content ∧
          (migrated config path content).report.fixes = 0 ∧
          (migrated config path content).report.issues = [] := by
    unfold LeavesAlone Report.isZero
    rw [run_eq_migrated accepted]
    simp
  have sameFormat :
      (migrated config path content).format = (Source.ofContent path content).format :=
    follows.sameFormat.trans rfl
  rw [aloneIff, fixes_migrated_eq_zero_iff, quietIff, issues_migrated]
  constructor
  · rintro ⟨written, ⟨inRepair, ordered⟩, noIssue⟩
    have sameTexts := (keeps ⟨inRepair, ordered⟩).trans (texts_classified config path content)
    rw [Source.render_eq_of_same sameFormat sameTexts,
      Source.render_ofContent_eq_iff] at written
    have unmarked := (issues_repaired_of_inRepair config path content inRepair).mp noIssue
    exact ⟨⟨inRepair, ordered, unmarked⟩, written⟩
  · rintro ⟨clean, unmixed⟩
    have idle := And.intro clean.inRepair clean.ordered
    have sameTexts := (keeps idle).trans (texts_classified config path content)
    have written := (Source.render_ofContent_eq_iff path content).mpr unmixed
    rw [← Source.render_eq_of_same sameFormat sameTexts] at written
    exact ⟨written, idle,
      (issues_repaired_of_inRepair config path content clean.inRepair).mpr clean.unmarked⟩

end Pipeline

end ScriptUplift
