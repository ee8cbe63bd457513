import Mathlib.Algebra.Ring.Int.Defs
import Mathlib.Tactic.Common
import ScriptUplift.Proofs.CleanPass
import ScriptUplift.Proofs.ReplacedTexts

namespace ScriptUplift

/-!
# Counted changes

A run is a sequence of passes: one for each rule, indentation repair, orphan
repair and member order.  Every pass counts something under its own names
exactly when it changes the text of some line.  So a run that fixes nothing
gives back content that it can write as it was.
-/

/-- A match shows in the texts that are left of a line. -/
theorem applyToLine_snd_eq_none_of_texts
    {rule : UpliftRule}
    {above : Text}
    {line : Line}
    (same : (applyToLine rule above line).1.map (·.text) = [line.text]) :
    (applyToLine rule above line).2 = none := by
  rcases applyToLine_cases rule above line with unmatched | ⟨replacement, _, matched, replaced⟩
  · rw [unmatched]
  · rw [replaced, List.map_cons, List.cons.injEq, List.map_map, List.map_eq_nil_iff] at same
    exact absurd same.1 (UpliftRule.first_ne_of_apply matched same.2)

theorem length_pos_applyToLine
    (rule : UpliftRule)
    (above : Text)
    (line : Line) :
    0 < (applyToLine rule above line).1.length := by
  rcases applyToLine_cases rule above line with unmatched | ⟨replacement, _, _, replaced⟩
  · rw [unmatched]
    exact Nat.one_pos
  · rw [replaced]
    exact Nat.succ_pos _

theorem length_le_applyToEach
    (rule : UpliftRule)
    (above : Text)
    (lines : List Line) :
    lines.length ≤ ((applyToEach rule above lines).flatMap Prod.fst).length := by
  induction lines generalizing above with
  | nil =>
      exact Nat.zero_le _
  | cons line rest inductionHypothesis =>
      have own := length_pos_applyToLine rule above line
      have others := inductionHypothesis line.text
      rw [applyToEach, List.flatMap_cons, List.length_append, List.length_cons]
      omega

/-- Where a rule leaves the texts of a file, it matched nothing. -/
theorem unmatched_of_texts_applyToEach
    {rule : UpliftRule}
    {above : Text}
    {lines : List Line}
    (same : ((applyToEach rule above lines).flatMap Prod.fst).map (·.text) =
      lines.map (·.text)) :
    (applyToEach rule above lines).filterMap Prod.snd = [] := by
  induction lines generalizing above with
  | nil =>
      rfl
  | cons line rest inductionHypothesis =>
      rw [applyToEach, List.flatMap_cons, List.map_append, List.map_cons] at same
      -- No line is lost, so that a line that is split would make the file longer.
      have lengths := congrArg List.length same
      have own := length_pos_applyToLine rule above line
      have others := length_le_applyToEach rule line.text rest
      simp only [List.length_append, List.length_map, List.length_cons] at lengths
      obtain ⟨sameOwn, sameOthers⟩ :=
        List.append_inj (same.trans (List.singleton_append ..).symm) (by
          rw [List.length_map, List.length_singleton]
          omega)
      rw [applyToEach, List.filterMap_cons, applyToLine_snd_eq_none_of_texts sameOwn]
      exact inductionHypothesis sameOthers

namespace Orphan

/-- The number of characters of lines. -/
def characters
    (tracked : List Tracked) :
    Nat :=
  (tracked.map (·.line.text.length)).sum

theorem characters_append
    (first second : List Tracked) :
    characters (first ++ second) = characters first + characters second := by
  simp [characters]

namespace Verdict

/-- No line that is kept, wrapped or suppressed gets shorter. -/
theorem length_le_treat
    (unit : IndentUnit)
    (verdict : Verdict)
    (tracked : Tracked) :
    tracked.line.text.length ≤ (verdict.treat unit tracked).line.text.length := by
  cases verdict with
  | keep kept =>
      exact Nat.le_refl _
  | wrap name members =>
      change _ ≤ (wrapLine unit tracked).line.text.length
      unfold wrapLine
      dsimp only
      split
      · exact Nat.le_refl _
      · rw [List.length_append]
        exact Nat.le_add_left _ _
  | suppress members =>
      change _ ≤ (suppressLine tracked).line.text.length
      rcases suppressLine_text tracked with same | marked
      · rw [same]
      · rw [marked, List.length_append]
        exact Nat.le_add_left _ _

theorem characters_members_le
    (unit : IndentUnit)
    (verdict : Verdict) :
    characters verdict.members ≤ characters (verdict.members.map (verdict.treat unit)) := by
  unfold characters
  rw [List.map_map]
  exact List.sum_le_sum fun tracked _ => verdict.length_le_treat unit tracked

theorem characters_le
    (unit : IndentUnit)
    (verdict : Verdict) :
    characters verdict.members ≤ characters (verdict.lines unit) := by
  rw [verdict.lines_eq, characters_append]
  exact Nat.le_trans (verdict.characters_members_le unit) (Nat.le_add_left _ _)

/-- A wrapped run gets a header in addition. -/
theorem characters_lt_of_wrap
    (unit : IndentUnit)
    (name : Text)
    (members : List Tracked) :
    characters (Verdict.wrap name members).members <
      characters ((Verdict.wrap name members).lines unit) := by
  have header : 0 < characters ((Verdict.wrap name members).headers unit) := by
    simp [characters, headers, wrapperHeader]
  rw [lines_eq, characters_append]
  have kept := (Verdict.wrap name members).characters_members_le unit
  omega

/-- A suppressed orphan gets a marker. -/
theorem characters_lt_of_suppress
    (unit : IndentUnit)
    {members : List Tracked}
    {orphan : Tracked}
    (member : orphan ∈ members)
    (isOrphan : isOrphanStatement orphan = true) :
    characters (Verdict.suppress members).members <
      characters ((Verdict.suppress members).lines unit) := by
  have visible : orphan.line.text.isBlank = false := by
    simp only [isOrphanStatement, Bool.and_eq_true, Bool.not_eq_true'] at isOrphan
    exact isOrphan.1
  have marker : 0 < Marker.suppressed.length := by
    decide
  have marked : orphan.line.text.length < (suppressLine orphan).line.text.length := by
    unfold suppressLine
    rw [if_neg (by simp [visible])]
    dsimp only
    rw [List.length_append]
    omega
  change (members.map (·.line.text.length)).sum <
    ((members.map suppressLine).map (·.line.text.length)).sum
  rw [List.map_map]
  exact List.sum_lt_sum _ _
    (fun tracked _ => (Verdict.suppress members).length_le_treat unit tracked)
    ⟨orphan, member, marked⟩

end Verdict

/-- Verdicts leave at least the characters they are about, and more if one of them adds some. -/
theorem characters_verdicts
    (unit : IndentUnit)
    (verdicts : List Verdict) :
    characters (verdicts.flatMap (·.members)) ≤ characters (verdicts.flatMap (·.lines unit)) ∧
      ((∃ verdict ∈ verdicts, characters verdict.members < characters (verdict.lines unit)) →
        characters (verdicts.flatMap (·.members)) <
          characters (verdicts.flatMap (·.lines unit))) := by
  induction verdicts with
  | nil =>
      simp
  | cons verdict rest inductionHypothesis =>
      have own := verdict.characters_le unit
      obtain ⟨others, othersLess⟩ := inductionHypothesis
      rw [List.flatMap_cons, List.flatMap_cons, characters_append, characters_append]
      refine ⟨Nat.add_le_add own others, ?_⟩
      rintro ⟨grown, isVerdict, less⟩
      rcases List.mem_cons.mp isVerdict with rfl | later
      · exact Nat.add_lt_add_of_lt_of_le less others
      · exact Nat.add_lt_add_of_le_of_lt own (othersLess ⟨grown, later, less⟩)

/-- The verdicts about recomputed lines with a run change some text. -/
theorem texts_resolvedLines_ne
    {wrapperName : String}
    {unit : IndentUnit}
    {lines : List Line}
    (fresh : refreshLines unit lines = lines)
    (runs : (verdictsOf wrapperName lines).any (·.isRun) = true) :
    (resolvedLines wrapperName unit lines).map (·.text) ≠ lines.map (·.text) := by
  intro same
  have grows : ∃ verdict ∈ verdictsOf wrapperName lines,
      characters verdict.members < characters (verdict.lines unit) := by
    obtain ⟨verdict, decided, isRun⟩ := List.any_eq_true.mp runs
    cases verdict with
    | keep tracked =>
        cases isRun
    | wrap name members =>
        exact ⟨_, decided, Verdict.characters_lt_of_wrap unit name members⟩
    | suppress members =>
        obtain ⟨orphan, member, isOrphan⟩ := exists_orphan_of_suppress fresh decided
        exact ⟨_, decided, Verdict.characters_lt_of_suppress unit member isOrphan⟩
  have more := (characters_verdicts unit (verdictsOf wrapperName lines)).2 grows
  have sameTexts :
      ((verdictsOf wrapperName lines).flatMap (·.members)).map (·.line.text) =
        lines.map (·.text) :=
    map_eq_of_forall₂ ((verdictsOf_members wrapperName lines).imp fun _ _ carried => carried.2)
  have before : characters ((verdictsOf wrapperName lines).flatMap (·.members)) =
      ((lines.map (·.text)).map List.length).sum := by
    rw [← sameTexts, List.map_map]
    rfl
  have after : characters ((verdictsOf wrapperName lines).flatMap (·.lines unit)) =
      (((resolvedLines wrapperName unit lines).map (·.text)).map List.length).sum := by
    simp only [characters, resolvedLines, List.map_map]
    rfl
  rw [before, after, same] at more
  exact Nat.lt_irrefl _ more

end Orphan

/-- One pass of a run over a whole file. -/
inductive Pass
  | uplift (rule : UpliftRule)
  | indent
  | orphan (wrapperName : String)
  | canonicalize
  deriving Repr, DecidableEq

namespace Pass

/-- The names a pass counts under. -/
def counters : Pass → List String
  | .uplift rule => [rule.name]
  | .indent => [Indent.repairCounter]
  | .orphan _ => [Orphan.wrapCounter, Orphan.suppressCounter]
  | .canonicalize => [Canonical.reorderCounter]

/-- What a pass makes of a file. -/
def run : Pass → Source → Source
  | .uplift rule, source => source.applyEverywhere rule
  | .indent, source => source.indentStage
  | .orphan wrapperName, source => source.orphanStage wrapperName
  | .canonicalize, source => source.canonicalStage.1

/-- What passes make of a file, one after the other. -/
def runAll
    (passes : List Pass)
    (source : Source) :
    Source :=
  passes.foldl (fun current pass => pass.run current) source

/-- What a file has counted under the names of a pass. -/
def fixes
    (pass : Pass)
    (source : Source) :
    Int :=
  (pass.counters.map source.counted).sum

/-- A pass counts something under its names exactly when it changes the texts of the lines. -/
def AccountsFor
    (pass : Pass)
    (source : Source) :
    Prop :=
  pass.fixes source < pass.fixes (pass.run source) ↔ (pass.run source).texts ≠ source.texts

/-- A pass accounts for its changes when it adds an amount that is zero for unchanged texts. -/
theorem accountsFor_of_amount
    {pass : Pass}
    {source : Source}
    (amount : Nat)
    (counts : pass.fixes (pass.run source) = pass.fixes source + amount)
    (unchanged : amount = 0 ↔ (pass.run source).texts = source.texts) :
    pass.AccountsFor source := by
  unfold AccountsFor
  rw [counts, ne_eq, ← unchanged]
  omega

theorem accountsFor_uplift
    (rule : UpliftRule)
    (source : Source) :
    (Pass.uplift rule).AccountsFor source := by
  rcases source.applyEverywhere_cases rule with ⟨_, same⟩ | ⟨total, positive, changed⟩
  · refine accountsFor_of_amount 0 ?_ ?_
    · simp [run, same]
    · simp [run, same]
  · have counted (name : String) :
        (source.applyEverywhere rule).counted name =
          source.counted name + if name = rule.name then (total : Int) else 0 := by
      rw [changed]
      exact Source.counted_count _ _ _ _
    refine accountsFor_of_amount total ?_ ?_
    · simp [fixes, counters, run, counted]
    · refine ⟨fun none => absurd none (Nat.ne_of_gt positive), fun sameTexts => ?_⟩
      have refreshedTexts :
          (source.applyEverywhere rule).texts =
            ((applyToEach rule [] source.lines).flatMap Prod.fst).map (·.text) := by
        rw [changed]
        exact refreshLines_texts _ _
      have unmatched := unmatched_of_texts_applyToEach (refreshedTexts.symm.trans sameTexts)
      have idle := (source.applyEverywhere_idle rule).2.2
        ((filterMap_applyToEach_eq_nil_iff rule [] source.lines).mp unmatched)
      have ownCount := counted rule.name
      rw [idle, if_pos rfl] at ownCount
      omega

theorem accountsFor_indent
    (source : Source) :
    Pass.indent.AccountsFor source := by
  have texts : source.indentStage.texts = source.placedLines.map (·.text) := by
    unfold Source.indentStage
    dsimp only
    split
    · rfl
    · exact refreshLines_texts _ _
  refine accountsFor_of_amount (Indent.changedLines source.lines source.placedLines) ?_ ?_
  · simp [fixes, counters, run, Source.counted_indentStage]
  · unfold run
    rw [texts]
    exact Indent.changedLines_eq_zero_iff (by simp [Source.placedLines])

theorem accountsFor_orphan
    {source : Source}
    (consistent : source.Consistent)
    (wrapperName : String) :
    (Pass.orphan wrapperName).AccountsFor source := by
  have apart : Orphan.wrapCounter ≠ Orphan.suppressCounter := by
    decide
  cases runs : (Orphan.verdictsOf wrapperName source.lines).any (·.isRun) with
  | false =>
      have kept := Source.orphanStage_of_no_run runs
      refine accountsFor_of_amount 0 ?_ ?_
      · simp [fixes, Pass.counters, run, Source.counted, kept.counters]
      · simp [run, Source.texts, kept.lines]
  | true =>
      have resolved := Source.orphanStage_of_run consistent.settled runs
      refine accountsFor_of_amount
        ((Orphan.verdictsOf wrapperName source.lines).countP (·.isWrap) +
          ((Orphan.verdictsOf wrapperName source.lines).reverse.flatMap (·.issues)).length) ?_ ?_
      · simp only [fixes, Pass.counters, run, Source.counted, resolved.counters, List.map_cons,
          List.map_nil, List.sum_cons, List.sum_nil, Tally.count_add, Tally.count_register,
          if_neg apart, if_neg apart.symm, if_true]
        push_cast
        omega
      · have positive := Orphan.pos_of_run consistent.fresh runs
        refine ⟨fun none => by omega, fun sameTexts => ?_⟩
        have texts : (source.orphanStage wrapperName).texts =
            (Orphan.resolvedLines wrapperName source.unit source.lines).map (·.text) := by
          unfold Source.texts
          rw [resolved.lines]
          exact refreshLines_texts _ _
        exact absurd (texts.symm.trans sameTexts)
          (Orphan.texts_resolvedLines_ne consistent.fresh runs)

theorem accountsFor_canonicalize
    {source : Source}
    (consistent : source.Consistent) :
    Pass.canonicalize.AccountsFor source := by
  have noOrphan : ∀ line ∈ source.lines, line.category ≠ .orphan :=
    fun _ member => consistent.category_ne_orphan member
  rcases Source.canonicalStage_cases noOrphan with ⟨_, same⟩ | ⟨unordered, arranged⟩
  · refine accountsFor_of_amount 0 ?_ ?_
    · simp [fixes, counters, run, same, source.quiet_register _ _]
    · simp [run, same, Source.texts_register]
  · refine accountsFor_of_amount 1 ?_ ?_
    · have registered := source.quiet_register [Canonical.reorderCounter] Canonical.reorderCounter
      simp only [fixes, counters, run, arranged, List.map_cons, List.map_nil, List.sum_cons,
        List.sum_nil, Source.counted_count, if_true]
      rw [← registered, Int.add_zero, Int.add_zero]
      rfl
    · refine ⟨fun none => absurd none Nat.one_ne_zero, fun sameTexts => ?_⟩
      change source.canonicalStage.1.texts = source.texts at sameTexts
      rw [arranged] at sameTexts
      exact absurd (.inr sameTexts) unordered

/-- Every pass accounts for what it changes in a consistent file. -/
theorem accountsFor
    {source : Source}
    (consistent : source.Consistent)
    (pass : Pass) :
    pass.AccountsFor source := by
  cases pass with
  | uplift rule =>
      exact accountsFor_uplift rule source
  | indent =>
      exact accountsFor_indent source
  | orphan wrapperName =>
      exact accountsFor_orphan consistent wrapperName
  | canonicalize =>
      exact accountsFor_canonicalize consistent

/-- Every pass before member order hands over a consistent file. -/
theorem run_consistent
    {source : Source}
    (consistent : source.Consistent)
    {pass : Pass}
    (early : pass ≠ .canonicalize) :
    (pass.run source).Consistent := by
  cases pass with
  | uplift rule =>
      exact consistent.applyEverywhere rule
  | indent =>
      exact consistent.indentStage
  | orphan wrapperName =>
      exact consistent.orphanStage wrapperName
  | canonicalize =>
      exact absurd rfl early

theorem runAll_consistent
    {source : Source}
    (consistent : source.Consistent)
    {passes : List Pass}
    (early : ∀ pass ∈ passes, pass ≠ .canonicalize) :
    (runAll passes source).Consistent := by
  induction passes generalizing source with
  | nil =>
      exact consistent
  | cons pass rest inductionHypothesis =>
      obtain ⟨own, others⟩ := List.forall_mem_cons.mp early
      exact inductionHypothesis (run_consistent consistent own) others

end Pass

namespace Pipeline

/-- The passes before member order. -/
def repairsOf
    (config : Config) :
    List Pass :=
  (UpliftRule.enabled config.disabledRules).map .uplift ++ [.indent, .orphan config.wrapperName]

/-- The passes that a configured run makes over a classified file. -/
def passesOf
    (config : Config) :
    List Pass :=
  repairsOf config ++ (if config.canonical then [.canonicalize] else [])

theorem ne_canonicalize_of_mem_repairsOf
    {config : Config}
    {pass : Pass}
    (member : pass ∈ repairsOf config) :
    pass ≠ .canonicalize := by
  rintro rfl
  simp [repairsOf] at member

/-- Member order is the last pass. -/
theorem ne_canonicalize_of_followed
    {config : Config}
    {before after : List Pass}
    {next : Pass}
    (position : passesOf config = before ++ next :: after) :
    ∀ pass ∈ before, pass ≠ .canonicalize := by
  intro pass member
  unfold passesOf at position
  rcases List.append_eq_append_iff.mp position with
    ⟨between, isBefore, isLast⟩ | ⟨between, isRepairs, _⟩
  · cases between with
    | nil =>
        rw [isBefore, List.append_nil] at member
        exact ne_canonicalize_of_mem_repairsOf member
    | cons last between =>
        have lengths := congrArg List.length isLast
        split at lengths
        · simp only [List.length_cons, List.length_append, List.length_nil] at lengths
          omega
        · simp at lengths
  · have early : pass ∈ repairsOf config := by
      rw [isRepairs]
      exact List.mem_append_left _ member
    exact ne_canonicalize_of_mem_repairsOf early

/-- The classified file as the first pass gets it. -/
def entered
    (config : Config)
    (path : String)
    (content : Text) :
    Source :=
  (classified config path content).register
    ((UpliftRule.enabled config.disabledRules).map (·.name))

/-- A configured run is its passes over the classified file. -/
theorem runAll_passesOf
    (config : Config)
    (path : String)
    (content : Text) :
    Pass.runAll (passesOf config) (entered config path content) = migrated config path content := by
  have repairs : Pass.runAll (repairsOf config) (entered config path content) =
      repaired config path content := by
    unfold Pass.runAll repairsOf repaired uplifted Source.upliftStage entered
    rw [List.foldl_append, List.foldl_map]
    simp only [List.foldl_cons, List.foldl_nil, Pass.run]
  unfold passesOf migrated
  unfold Pass.runAll at repairs ⊢
  rw [List.foldl_append, repairs]
  split <;> rfl

/--
Counters account for every change and only for changes.  A configured run is a
sequence of passes, and each pass, over the file that it gets, adds to the
counters under its names exactly when it changes the text of some line.  So a
run that fixes nothing gives back content that is written as it was read.
-/
theorem counters_account_for_changes
    {config : Config}
    {pipeline : Pipeline}
    (accepted : ofConfig config = .ok pipeline)
    (path : String)
    (content : Text) :
    pipeline.run path content =
        (Pass.runAll (passesOf config) (entered config path content), .done) ∧
      (∀ before pass after, passesOf config = before ++ pass :: after →
        pass.AccountsFor (Pass.runAll before (entered config path content))) ∧
      ((Source.ofContent path content).render = content →
        (pipeline.run path content).1.report.fixes = 0 →
          (pipeline.run path content).1.render = content) := by
  have consistent : (entered config path content).Consistent :=
    (classified_consistent config path content).of_same rfl rfl
  have ran := run_eq_migrated accepted path content
  rw [ran, runAll_passesOf]
  refine ⟨rfl, ?_, ?_⟩
  · intro before pass after position
    exact Pass.accountsFor
      (Pass.runAll_consistent consistent (ne_canonicalize_of_followed position)) pass
  · intro written noFix
    obtain ⟨follows, quietIff, keeps⟩ := migrated_idle config path content
    have idle := quietIff.mp ((fixes_migrated_eq_zero_iff config path content).mp noFix)
    have sameTexts := (keeps idle).trans (texts_classified config path content)
    have sameFormat :
        (migrated config path content).format = (Source.ofContent path content).format :=
      follows.sameFormat.trans rfl
    rw [Source.render_eq_of_same sameFormat sameTexts]
    exact written

/--
By default settings a script that needs nothing comes back as it was.  In one
that does, the pass for stuttered callees counts, so that it changes a text.
-/
theorem clean_script_comes_back_and_stutter_shows :
    ofConfig .default = .ok ⟨stagesOf .default, countersOf .default⟩ ∧
      (let pipeline : Pipeline := ⟨stagesOf .default, countersOf .default⟩
      let content := "extends Node\n\nfunc f():\n\tpass\n".toList
      (Source.ofContent "x.gd" content).render = content ∧
        (pipeline.run "x.gd" content).1.report.fixes = 0 ∧
        (pipeline.run "x.gd" content).1.render = content) ∧
      (let before : List Pass := [.uplift .toolDirective]
      let pass : Pass := .uplift .preloadStutter
      let source := Pass.runAll before
        (entered .default "x.gd" "tool\nvar a = prepreload('b')\n".toList)
      passesOf .default = before ++ pass :: (passesOf .default).drop 2 ∧
        pass.fixes source < pass.fixes (pass.run source) ∧
        (pass.run source).texts ≠ source.texts) := by
  have accepted : ofConfig .default = .ok ⟨stagesOf .default, countersOf .default⟩ := rfl
  have written :
      (Source.ofContent "x.gd" "extends Node\n\nfunc f():\n\tpass\n".toList).render =
        "extends Node\n\nfunc f():\n\tpass\n".toList := by
    decide +kernel
  have noFix :
      (run ⟨stagesOf .default, countersOf .default⟩ "x.gd"
        "extends Node\n\nfunc f():\n\tpass\n".toList).1.report.fixes = 0 := by
    decide +kernel
  have position : passesOf .default =
      [.uplift .toolDirective] ++ .uplift .preloadStutter :: (passesOf .default).drop 2 := by
    decide +kernel
  have counts :
      let source := Pass.runAll [.uplift .toolDirective]
        (entered .default "x.gd" "tool\nvar a = prepreload('b')\n".toList)
      (Pass.uplift .preloadStutter).fixes source <
        (Pass.uplift .preloadStutter).fixes ((Pass.uplift .preloadStutter).run source) := by
    decide +kernel
  have accounts :=
    (counters_account_for_changes accepted "x.gd" "tool\nvar a = prepreload('b')\n".toList).2.1
      _ _ _ position
  exact ⟨accepted,
    ⟨written, noFix, (counters_account_for_changes accepted "x.gd" _).2.2 written noFix⟩,
    position, counts, accounts.mp counts⟩

end Pipeline

end ScriptUplift
