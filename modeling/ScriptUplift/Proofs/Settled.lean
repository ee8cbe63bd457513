import Mathlib.Data.List.Basic
import Mathlib.Tactic.Common
import ScriptUplift.Proofs.Completion
import ScriptUplift.Proofs.LineEndings
import ScriptUplift.Proofs.UpliftEngine

namespace ScriptUplift

/-!
# When a run has nothing left to do

Counts only grow along a run, so that a run counts nothing exactly when none of
its stages does.  For each stage there is one condition on the lines it gets; a
file that meets all of them is settled.  A run over settled content counts
nothing and writes the content back, up to mixed line breaks; a run over any
other content counts something.

What a run leaves need not be settled: awaiting a signal may uncover a call that
an earlier rule would have replaced.
-/

namespace Source

/-- What a file has counted under a name. -/
def counted
    (source : Source)
    (name : String) :
    Int :=
  source.report.counters.count name

/-- How a file is written, apart from its lines. -/
structure Format where
  trailingNewline : Bool
  crlf : Bool
  byteOrderMark : Bool
  deriving Repr, DecidableEq

/-- The format of a file. -/
def format
    (source : Source) :
    Format :=
  ⟨source.trailingNewline, source.crlf, source.byteOrderMark⟩

/-- Files of one format with the same texts are written alike. -/
theorem render_eq_of_same
    {first second : Source}
    (sameFormat : first.format = second.format)
    (sameTexts : first.texts = second.texts) :
    first.render = second.render := by
  have sameEnd : first.trailingNewline = second.trailingNewline :=
    congrArg Format.trailingNewline sameFormat
  have sameCrlf : first.crlf = second.crlf :=
    congrArg Format.crlf sameFormat
  have sameMark : first.byteOrderMark = second.byteOrderMark :=
    congrArg Format.byteOrderMark sameFormat
  rw [render_eq, render_eq]
  unfold lineBreak
  rw [sameEnd, sameCrlf, sameMark, sameTexts]

/-- A file later in a run: it is written alike, and no count has shrunk. -/
structure Follows
    (before after : Source) :
    Prop where
  sameFormat : after.format = before.format
  grown : ∀ name, before.counted name ≤ after.counted name

/-- A file later in a run in which nothing was counted. -/
def Quiet
    (before after : Source) :
    Prop :=
  ∀ name, after.counted name = before.counted name

namespace Follows

theorem refl
    (source : Source) :
    Follows source source :=
  ⟨rfl, fun _ => Int.le_refl _⟩

theorem trans
    {first second third : Source}
    (early : Follows first second)
    (late : Follows second third) :
    Follows first third where
  sameFormat := late.sameFormat.trans early.sameFormat
  grown := fun name => Int.le_trans (early.grown name) (late.grown name)

/-- A quiet run is quiet in both its halves. -/
theorem quiet_trans_iff
    {first second third : Source}
    (early : Follows first second)
    (late : Follows second third) :
    Quiet first third ↔ Quiet first second ∧ Quiet second third := by
  constructor
  · intro quiet
    constructor
    · intro name
      have whole := quiet name
      have grownEarly := early.grown name
      have grownLate := late.grown name
      omega
    · intro name
      have whole := quiet name
      have grownEarly := early.grown name
      have grownLate := late.grown name
      omega
  · rintro ⟨quietEarly, quietLate⟩ name
    rw [quietLate name, quietEarly name]

theorem of_quiet
    {before after : Source}
    (sameFormat : after.format = before.format)
    (quiet : Quiet before after) :
    Follows before after :=
  ⟨sameFormat, fun name => Int.le_of_eq (quiet name).symm⟩

/-- What counts under one name follows, and is quiet exactly when it counts zero. -/
theorem of_counted
    {before after : Source}
    {own : String}
    {amount : Nat}
    (sameFormat : after.format = before.format)
    (counts : ∀ name,
      after.counted name = before.counted name + if name = own then (amount : Int) else 0) :
    Follows before after ∧ (Quiet before after ↔ amount = 0) := by
  refine ⟨⟨sameFormat, ?_⟩, ?_, ?_⟩
  · intro name
    rw [counts]
    split <;> omega
  · intro quiet
    have ownCount := quiet own
    rw [counts, if_pos rfl] at ownCount
    omega
  · intro isZero name
    rw [counts, isZero]
    simp

end Follows

theorem quiet_register
    (source : Source)
    (names : List String) :
    Quiet source (source.register names) := by
  intro name
  simp [counted, register, Report.register]

theorem texts_register
    (source : Source)
    (names : List String) :
    (source.register names).texts = source.texts :=
  rfl

theorem counted_count
    (source : Source)
    (name other : String)
    (amount : Int) :
    (source.count name amount).counted other =
      source.counted other + if other = name then amount else 0 := by
  unfold counted
  exact Tally.count_add _ _ _ _

end Source

/-- Where a rule finds nothing in the statements below a text. -/
def Unmatched
    (rule : UpliftRule)
    (higher : Text)
    (lines : List Line) :
    Prop :=
  ∀ above line below, lines = above ++ line :: below → line.isStatement = true →
    rule.apply ((above.getLast?.map (·.text)).getD higher) line.text = none

/-- A rule finds nothing in lines when it finds nothing in the first and in the rest below it. -/
theorem unmatched_cons_iff
    (rule : UpliftRule)
    (higher : Text)
    (first : Line)
    (rest : List Line) :
    Unmatched rule higher (first :: rest) ↔
      (first.isStatement = true → rule.apply higher first.text = none) ∧
        Unmatched rule first.text rest := by
  have seen (above : List Line) :
      ((first :: above).getLast?.map (·.text)).getD higher =
        (above.getLast?.map (·.text)).getD first.text := by
    rw [List.getLast?_cons]
    cases above.getLast? <;> rfl
  constructor
  · intro unmatched
    refine ⟨unmatched [] first rest rfl, ?_⟩
    intro above line below shape statement
    rw [← seen]
    exact unmatched (first :: above) line below (congrArg (first :: ·) shape) statement
  · rintro ⟨own, others⟩ above line below shape statement
    cases above with
    | nil =>
        obtain ⟨rfl, rfl⟩ := List.cons.inj shape
        exact own statement
    | cons top between =>
        obtain ⟨rfl, restShape⟩ := List.cons.inj shape
        rw [seen]
        exact others between line below restShape statement

theorem applyToLine_snd_eq_none_iff
    (rule : UpliftRule)
    (higher : Text)
    (line : Line) :
    (applyToLine rule higher line).2 = none ↔
      (line.isStatement = true → rule.apply higher line.text = none) := by
  unfold applyToLine
  by_cases statement : line.isStatement = true
  · rw [if_pos statement]
    cases rule.apply higher line.text <;> simp [statement]
  · simp [statement]

/-- A rule counts nothing in lines exactly when it finds nothing in their statements. -/
theorem filterMap_applyToEach_eq_nil_iff
    (rule : UpliftRule)
    (higher : Text)
    (lines : List Line) :
    (applyToEach rule higher lines).filterMap Prod.snd = [] ↔ Unmatched rule higher lines := by
  induction lines generalizing higher with
  | nil =>
      simp [applyToEach, Unmatched]
  | cons first rest inductionHypothesis =>
      rw [unmatched_cons_iff, ← applyToLine_snd_eq_none_iff, ← inductionHypothesis first.text,
        applyToEach, List.filterMap_cons]
      cases (applyToLine rule higher first).2 <;> simp

namespace Source

/-- One rule follows; it is quiet exactly when it finds nothing, and then leaves the file alone. -/
theorem applyEverywhere_idle
    (source : Source)
    (rule : UpliftRule) :
    Follows source (source.applyEverywhere rule) ∧
      (Quiet source (source.applyEverywhere rule) → Unmatched rule [] source.lines) ∧
      (Unmatched rule [] source.lines → source.applyEverywhere rule = source) := by
  rcases source.applyEverywhere_cases rule with ⟨noCounts, same⟩ | ⟨total, positive, changed⟩
  · rw [same]
    have unmatched := (filterMap_applyToEach_eq_nil_iff rule [] source.lines).mp noCounts
    exact ⟨.refl source, fun _ => unmatched, fun _ => rfl⟩
  · have sameFormat : (source.applyEverywhere rule).format = source.format := by
      rw [changed]
      rfl
    have counts (name : String) :
        (source.applyEverywhere rule).counted name =
          source.counted name + if name = rule.name then (total : Int) else 0 := by
      rw [changed]
      exact counted_count _ _ _ _
    obtain ⟨follows, quietIff⟩ := Follows.of_counted sameFormat counts
    refine ⟨follows, ?_, ?_⟩
    · intro quiet
      exact absurd (quietIff.mp quiet) (Nat.ne_of_gt positive)
    · intro unmatched
      have noCounts := (filterMap_applyToEach_eq_nil_iff rule [] source.lines).mpr unmatched
      unfold applyEverywhere
      dsimp only
      rw [noCounts]
      rfl

/-- The rules, one after the other, are quiet exactly when none finds anything in the file. -/
theorem foldl_applyEverywhere_idle
    (rules : List UpliftRule)
    (source : Source) :
    Follows source (rules.foldl applyEverywhere source) ∧
      (Quiet source (rules.foldl applyEverywhere source) →
        ∀ rule ∈ rules, Unmatched rule [] source.lines) ∧
      ((∀ rule ∈ rules, Unmatched rule [] source.lines) →
        rules.foldl applyEverywhere source = source) := by
  induction rules generalizing source with
  | nil =>
      exact ⟨.refl source, by simp, fun _ => rfl⟩
  | cons rule rest inductionHypothesis =>
      obtain ⟨followsRule, unmatchedRule, sameRule⟩ := source.applyEverywhere_idle rule
      obtain ⟨followsRest, unmatchedRest, sameRest⟩ :=
        inductionHypothesis (source.applyEverywhere rule)
      rw [List.foldl_cons]
      refine ⟨followsRule.trans followsRest, ?_, ?_⟩
      · intro quiet
        obtain ⟨quietRule, quietRest⟩ := (followsRule.quiet_trans_iff followsRest).mp quiet
        have own := unmatchedRule quietRule
        have others := unmatchedRest quietRest
        rw [sameRule own] at others
        exact List.forall_mem_cons.mpr ⟨own, others⟩
      · intro unmatched
        obtain ⟨own, others⟩ := List.forall_mem_cons.mp unmatched
        rw [sameRule own] at sameRest ⊢
        exact sameRest others

theorem follows_upliftStage
    (rules : List UpliftRule)
    (source : Source) :
    Follows source (source.upliftStage rules) := by
  unfold upliftStage
  have registered : Follows source (source.register (rules.map (·.name))) :=
    .of_quiet rfl (source.quiet_register _)
  exact registered.trans (foldl_applyEverywhere_idle rules _).1

/-- Uplift is quiet exactly when no rule finds anything in the file. -/
theorem quiet_upliftStage_iff
    (rules : List UpliftRule)
    (source : Source) :
    Quiet source (source.upliftStage rules) ↔
      ∀ rule ∈ rules, Unmatched rule [] source.lines := by
  obtain ⟨follows, unmatched, same⟩ :=
    foldl_applyEverywhere_idle rules (source.register (rules.map (·.name)))
  constructor
  · intro quiet
    have registered : Follows source (source.register (rules.map (·.name))) :=
      .of_quiet rfl (source.quiet_register _)
    exact unmatched ((registered.quiet_trans_iff follows).mp quiet).2
  · intro noMatch
    unfold upliftStage
    rw [same noMatch]
    exact source.quiet_register _

/-- Uplift without a match only makes its counters known. -/
theorem upliftStage_of_unmatched
    {rules : List UpliftRule}
    {source : Source}
    (noMatch : ∀ rule ∈ rules, Unmatched rule [] source.lines) :
    source.upliftStage rules = source.register (rules.map (·.name)) := by
  unfold upliftStage
  exact (foldl_applyEverywhere_idle rules _).2.2 noMatch

/-- The lines of a file where indentation repair wants them. -/
def placedLines
    (source : Source) :
    List Line :=
  Indent.repairLines source.unit [] 0 source.lines

/-- Indentation repair counts the lines it moves. -/
theorem counted_indentStage
    (source : Source)
    (name : String) :
    source.indentStage.counted name =
      source.counted name +
        if name = Indent.repairCounter then
          (Indent.changedLines source.lines source.placedLines : Int)
        else 0 := by
  have registered := source.quiet_register [Indent.repairCounter] name
  unfold indentStage
  dsimp only
  split
  · rename_i unchanged
    have nothing :
        (if name = Indent.repairCounter then
          (Indent.changedLines source.lines source.placedLines : Int)
        else 0) = 0 := by
      unfold placedLines
      simp [unchanged]
    rw [nothing, Int.add_zero]
    exact registered
  · rw [← registered]
    exact counted_count _ _ _ _

/-- Indentation repair follows; it is quiet exactly when it finds every line in its place. -/
theorem indentStage_idle
    (source : Source) :
    Follows source source.indentStage ∧
      (Quiet source source.indentStage ↔ source.placedLines.map (·.text) = source.texts) := by
  have unchangedIff :
      Indent.changedLines source.lines source.placedLines = 0 ↔
        source.placedLines.map (·.text) = source.texts :=
    Indent.changedLines_eq_zero_iff (by simp [placedLines])
  have sameFormat : source.indentStage.format = source.format := by
    unfold indentStage
    dsimp only
    split <;> rfl
  rw [← unchangedIff]
  exact Follows.of_counted sameFormat source.counted_indentStage

/-- Indentation repair of a file in place leaves its lines in their place. -/
theorem indentStage_lines_of_placed
    {source : Source}
    (inPlace : source.placedLines.map (·.text) = source.texts) :
    source.indentStage.lines = source.placedLines := by
  have unchanged : Indent.changedLines source.lines source.placedLines = 0 :=
    (Indent.changedLines_eq_zero_iff (by simp [placedLines])).mpr inPlace
  unfold placedLines at unchanged
  unfold indentStage
  dsimp only
  rw [if_pos unchanged]
  rfl

/-- Orphan repair of a consistent file is quiet exactly when no line leads into a run. -/
theorem Consistent.orphanStage_idle
    {source : Source}
    (consistent : source.Consistent)
    (wrapperName : String) :
    Follows source (source.orphanStage wrapperName) ∧
      (Quiet source (source.orphanStage wrapperName) ↔
        ∀ line ∈ source.lines, line.leadsIn = false) := by
  have sameFormat : (source.orphanStage wrapperName).format = source.format := by
    unfold Source.orphanStage
    dsimp only
    split <;> rfl
  have leadsIff :
      (Orphan.verdictsOf wrapperName source.lines).any (·.isRun) = false ↔
        ∀ line ∈ source.lines, line.leadsIn = false := by
    rw [Orphan.any_isRun_verdictsOf]
    simp
  have registered :=
    source.quiet_register [Orphan.wrapCounter, Orphan.suppressCounter]
  rw [← leadsIff]
  cases runs : (Orphan.verdictsOf wrapperName source.lines).any (·.isRun) with
  | false =>
      have kept := orphanStage_of_no_run runs
      have quiet : Quiet source (source.orphanStage wrapperName) := by
        intro name
        unfold counted
        rw [kept.counters]
        exact registered name
      exact ⟨.of_quiet sameFormat quiet, fun _ => rfl, fun _ => quiet⟩
  | true =>
      -- Blank lines lead into no run, so that a run is wrapped or has a statement to report.
      have resolved := orphanStage_of_run consistent.settled runs
      have counts (name : String) :
          (source.orphanStage wrapperName).counted name =
            source.counted name +
              (if name = Orphan.wrapCounter then
                ((Orphan.verdictsOf wrapperName source.lines).countP (·.isWrap) : Int)
              else 0) +
              (if name = Orphan.suppressCounter then
                (((Orphan.verdictsOf wrapperName source.lines).reverse.flatMap
                  (·.issues)).length : Int)
              else 0) := by
        unfold counted
        rw [resolved.counters, Tally.count_add, Tally.count_add, Tally.count_register]
      have loud : ¬ Quiet source (source.orphanStage wrapperName) := by
        intro quiet
        have apart : Orphan.wrapCounter ≠ Orphan.suppressCounter := by
          decide
        have wrapped := quiet Orphan.wrapCounter
        have suppressed := quiet Orphan.suppressCounter
        rw [counts, if_pos rfl, if_neg apart] at wrapped
        rw [counts, if_neg apart.symm, if_pos rfl] at suppressed
        rcases Orphan.pos_of_run consistent.fresh runs with someWrapped | someSuppressed <;> omega
      refine ⟨⟨sameFormat, ?_⟩, fun quiet => absurd quiet loud, by simp⟩
      intro name
      rw [counts]
      split <;> split <;> omega

/-- Orphan repair keeps the lines of a file in which no line leads into a run. -/
theorem orphanStage_lines_of_housed
    {source : Source}
    (housed : ∀ line ∈ source.lines, line.leadsIn = false)
    (wrapperName : String) :
    (source.orphanStage wrapperName).lines = source.lines := by
  have noRun : (Orphan.verdictsOf wrapperName source.lines).any (·.isRun) = false := by
    rw [Orphan.any_isRun_verdictsOf]
    simpa using housed
  exact (orphanStage_of_no_run noRun).lines

end Source

/-- Lines that member order leaves as they are. -/
def Canonical.Ordered
    (lines : List Line) :
    Prop :=
  (MemberSplit.ofLines lines).members = [] ∨
    (arrange (MemberSplit.ofLines lines)).map (·.text) = lines.map (·.text)

namespace Source

/-- Member order of a file without orphans rearranges the lines unless they are ordered. -/
theorem canonicalStage_cases
    {source : Source}
    (noOrphan : ∀ line ∈ source.lines, line.category ≠ .orphan) :
    (Canonical.Ordered source.lines ∧
        source.canonicalStage.1 = source.register [Canonical.reorderCounter]) ∨
      (¬ Canonical.Ordered source.lines ∧
        source.canonicalStage.1 =
          ({ source.register [Canonical.reorderCounter] with
            lines := Canonical.arrange (MemberSplit.ofLines source.lines) }).count
            Canonical.reorderCounter 1) := by
  have notFound : source.lines.find? (·.category == .orphan) = none := by
    rw [List.find?_eq_none]
    intro line member
    simpa using noOrphan line member
  have orderedIff :
      ((MemberSplit.ofLines source.lines).members.isEmpty ||
          (Canonical.arrange (MemberSplit.ofLines source.lines)).map (·.text) == source.texts) =
            true ↔
        Canonical.Ordered source.lines := by
    rw [Bool.or_eq_true, List.isEmpty_iff, beq_iff_eq]
    rfl
  unfold canonicalStage
  dsimp only
  rw [notFound]
  dsimp only
  split
  · rename_i keeps
    exact .inl ⟨orderedIff.mp keeps, rfl⟩
  · rename_i changes
    exact .inr ⟨mt orderedIff.mpr changes, rfl⟩

/-- Member order of a file without orphans is quiet exactly when its members are ordered. -/
theorem canonicalStage_idle
    {source : Source}
    (noOrphan : ∀ line ∈ source.lines, line.category ≠ .orphan) :
    Follows source source.canonicalStage.1 ∧
      (Quiet source source.canonicalStage.1 ↔ Canonical.Ordered source.lines) := by
  have registered := source.quiet_register [Canonical.reorderCounter]
  rcases canonicalStage_cases noOrphan with ⟨ordered, same⟩ | ⟨unordered, changed⟩
  · rw [same]
    exact ⟨.of_quiet rfl registered, fun _ => ordered, fun _ => registered⟩
  · have sameFormat : source.canonicalStage.1.format = source.format := by
      rw [changed]
      rfl
    have counts (name : String) :
        source.canonicalStage.1.counted name =
          source.counted name +
            if name = Canonical.reorderCounter then ((1 : Nat) : Int) else 0 := by
      rw [changed, counted_count, ← registered name]
      rfl
    obtain ⟨follows, quietIff⟩ := Follows.of_counted sameFormat counts
    refine ⟨follows, fun quiet => ?_, fun ordered => absurd ordered unordered⟩
    exact absurd (quietIff.mp quiet) Nat.one_ne_zero

/-- A file in which no stage finds anything to do. -/
structure Settled
    (rules : List UpliftRule)
    (source : Source) :
    Prop where
  /-- No rule finds anything in a statement. -/
  uplifted : ∀ rule ∈ rules, Unmatched rule [] source.lines
  /-- Every line stands where indentation repair wants it. -/
  placed : source.placedLines.map (·.text) = source.texts
  /-- No statement is stranded at file scope. -/
  housed : ∀ line ∈ source.placedLines, line.leadsIn = false
  /-- The members are in their order. -/
  ordered : Canonical.Ordered source.placedLines

/-- Where the stages find nothing to do, repair ends with the lines in their place. -/
theorem repairs_lines_of_idle
    {rules : List UpliftRule}
    {source : Source}
    (uplifted : ∀ rule ∈ rules, Unmatched rule [] source.lines)
    (placed : source.placedLines.map (·.text) = source.texts) :
    (source.upliftStage rules).indentStage.lines = source.placedLines := by
  rw [upliftStage_of_unmatched uplifted]
  have registeredPlaced :
      (source.register (rules.map (·.name))).placedLines.map (·.text) =
        (source.register (rules.map (·.name))).texts :=
    placed
  rw [indentStage_lines_of_placed registeredPlaced]
  rfl

/-- A file in which no stage before member order finds anything to do. -/
structure InRepair
    (rules : List UpliftRule)
    (source : Source) :
    Prop where
  uplifted : ∀ rule ∈ rules, Unmatched rule [] source.lines
  placed : source.placedLines.map (·.text) = source.texts
  housed : ∀ line ∈ source.placedLines, line.leadsIn = false

theorem settled_iff
    {rules : List UpliftRule}
    {source : Source} :
    source.Settled rules ↔
      source.InRepair rules ∧ Canonical.Ordered source.placedLines := by
  constructor
  · intro settled
    exact ⟨⟨settled.uplifted, settled.placed, settled.housed⟩, settled.ordered⟩
  · rintro ⟨inRepair, ordered⟩
    exact ⟨inRepair.uplifted, inRepair.placed, inRepair.housed, ordered⟩

/-- The stages before member order are quiet exactly on the files in repair, and then keep them. -/
theorem Consistent.repairs_idle
    {source : Source}
    (consistent : source.Consistent)
    (rules : List UpliftRule)
    (wrapperName : String) :
    let result := (source.upliftStage rules).indentStage.orphanStage wrapperName
    Follows source result ∧
      (Quiet source result ↔ source.InRepair rules) ∧
      (source.InRepair rules → result.lines = source.placedLines) := by
  intro result
  have followsUplift := follows_upliftStage rules source
  obtain ⟨followsIndent, quietIndent⟩ := (source.upliftStage rules).indentStage_idle
  have indented := (consistent.upliftStage rules).indentStage
  obtain ⟨followsOrphan, quietOrphan⟩ := indented.orphanStage_idle wrapperName
  have followsRepairs := followsIndent.trans followsOrphan
  refine ⟨followsUplift.trans followsRepairs, ?_, ?_⟩
  · rw [followsUplift.quiet_trans_iff followsRepairs,
      followsIndent.quiet_trans_iff followsOrphan, quiet_upliftStage_iff, quietIndent, quietOrphan]
    -- Each condition is about the lines its stage gets.  They are those of the file itself, in
    -- place, as long as the stages before had nothing to do.
    constructor
    · rintro ⟨uplifted, placed, housed⟩
      rw [upliftStage_of_unmatched uplifted] at placed
      rw [repairs_lines_of_idle uplifted placed] at housed
      exact ⟨uplifted, placed, housed⟩
    · intro inRepair
      have inPlace := repairs_lines_of_idle inRepair.uplifted inRepair.placed
      refine ⟨inRepair.uplifted, ?_, ?_⟩
      · rw [upliftStage_of_unmatched inRepair.uplifted]
        exact inRepair.placed
      · rw [inPlace]
        exact inRepair.housed
  · intro inRepair
    have inPlace := repairs_lines_of_idle inRepair.uplifted inRepair.placed
    have housed := inRepair.housed
    rw [← inPlace] at housed ⊢
    exact orphanStage_lines_of_housed housed wrapperName

/-- The stages are quiet exactly on the files that are settled, and then keep their texts. -/
theorem Consistent.stages_idle
    {source : Source}
    (consistent : source.Consistent)
    (rules : List UpliftRule)
    (wrapperName : String) :
    let result :=
      ((source.upliftStage rules).indentStage.orphanStage wrapperName).canonicalStage.1
    Follows source result ∧
      (Quiet source result ↔ source.Settled rules) ∧
      (source.Settled rules → result.texts = source.texts) := by
  intro result
  obtain ⟨followsRepairs, quietRepairs, keepsRepairs⟩ :=
    consistent.repairs_idle rules wrapperName
  have repaired := (consistent.upliftStage rules).indentStage.orphanStage wrapperName
  have noOrphan :
      ∀ line ∈ ((source.upliftStage rules).indentStage.orphanStage wrapperName).lines,
        line.category ≠ .orphan :=
    fun _ member => repaired.category_ne_orphan member
  obtain ⟨followsOrder, quietOrder⟩ := canonicalStage_idle noOrphan
  refine ⟨followsRepairs.trans followsOrder, ?_, ?_⟩
  · rw [followsRepairs.quiet_trans_iff followsOrder, quietRepairs, quietOrder, settled_iff]
    apply and_congr_right
    intro inRepair
    rw [keepsRepairs inRepair]
  · intro settled
    obtain ⟨inRepair, ordered⟩ := settled_iff.mp settled
    rw [← keepsRepairs inRepair] at ordered
    rcases canonicalStage_cases noOrphan with ⟨_, same⟩ | ⟨unordered, _⟩
    · unfold result
      rw [same, texts_register]
      unfold texts
      rw [keepsRepairs inRepair]
      exact inRepair.placed
    · exact absurd ordered unordered

end Source

namespace Pipeline

theorem migrated_eq_stages
    {config : Config}
    (canonical : config.canonical = true)
    (path : String)
    (content : Text) :
    migrated config path content =
      (((classified config path content).upliftStage
        (UpliftRule.enabled config.disabledRules)).indentStage.orphanStage
          config.wrapperName).canonicalStage.1 := by
  unfold migrated repaired uplifted
  rw [if_pos canonical]

theorem counted_classified
    (config : Config)
    (path : String)
    (content : Text)
    (name : String) :
    (classified config path content).counted name = 0 := by
  have registered :
      (classified config path content).report.counters = Tally.register {} (countersOf config) :=
    rfl
  unfold Source.counted
  rw [registered, Tally.count_register, Tally.count_empty]

theorem texts_classified
    (config : Config)
    (path : String)
    (content : Text) :
    (classified config path content).texts = (Source.ofContent path content).texts :=
  refreshLines_texts _ _

/--
A run with member order writes content back and counts nothing exactly when the
content is settled and mixes no line breaks.
-/
theorem migrated_idle_iff
    {config : Config}
    (canonical : config.canonical = true)
    (path : String)
    (content : Text) :
    ((migrated config path content).render = content ∧
        ∀ name, (migrated config path content).counted name = 0) ↔
      (classified config path content).Settled (UpliftRule.enabled config.disabledRules) ∧
        Source.mixesEndings content = false := by
  obtain ⟨follows, quietIff, keeps⟩ :=
    (classified_consistent config path content).stages_idle
      (UpliftRule.enabled config.disabledRules) config.wrapperName
  rw [← migrated_eq_stages canonical] at follows quietIff keeps
  have uncountedIff :
      (∀ name, (migrated config path content).counted name = 0) ↔
        (classified config path content).Settled (UpliftRule.enabled config.disabledRules) := by
    rw [← quietIff]
    unfold Source.Quiet
    simp only [counted_classified]
  have sameFormat :
      (migrated config path content).format = (Source.ofContent path content).format :=
    follows.sameFormat.trans rfl
  rw [uncountedIff, and_comm]
  apply and_congr_right
  intro settled
  have sameTexts := (keeps settled).trans (texts_classified config path content)
  rw [Source.render_eq_of_same sameFormat sameTexts]
  exact Source.render_ofContent_eq_iff path content

/--
A second run by default settings gives back what the first one left and counts
nothing exactly when what the first one left is settled and mixes no line
breaks.
-/
theorem second_run_idle_iff_settled
    (path : String)
    (content : Text) :
    ∃ pipeline,
      ofConfig .default = .ok pipeline ∧
        let first := pipeline.run path content
        let second := pipeline.run path first.1.render
        first.2 = .done ∧
          second.2 = .done ∧
          ((second.1.render = first.1.render ∧ ∀ name, second.1.counted name = 0) ↔
            (classified .default path first.1.render).Settled UpliftRule.all ∧
              Source.mixesEndings first.1.render = false) := by
  have known :
      ∀ name ∈ Config.default.disabledRules, ∃ rule : UpliftRule, rule.name = name := by
    simp [Config.default]
  have accepted := ofConfig_eq_ok known
  refine ⟨_, accepted, ?_⟩
  have allEnabled : UpliftRule.enabled Config.default.disabledRules = UpliftRule.all := by
    decide
  have canonical : Config.default.canonical = true := rfl
  have idleIff (given : Text) := migrated_idle_iff canonical path given
  rw [allEnabled] at idleIff
  simp only [run_eq_migrated accepted]
  exact ⟨trivial, trivial, idleIff _⟩

/-- Awaiting the signal called `connect` uncovers a call that only the second run replaces. -/
theorem second_run_replaces_awaited_connect :
    ofConfig .default = .ok ⟨stagesOf .default, countersOf .default⟩ ∧
      let pipeline : Pipeline := ⟨stagesOf .default, countersOf .default⟩
      let content := "func f():\n\tyield(self, \"connect\")(\"a\", self, \"b\")".toList
      let left := "func f():\n\tawait connect(\"a\", self, \"b\")".toList
      (pipeline.run "x.gd" content).1.render = left ∧
        (pipeline.run "x.gd" left).1.render = "func f():\n\tawait a.connect(b)".toList ∧
        (pipeline.run "x.gd" left).1.counted UpliftRule.connect.name = 1 := by
  refine ⟨rfl, ?_, ?_, ?_⟩
  · decide +kernel
  · decide +kernel
  · decide +kernel

end Pipeline

end ScriptUplift
