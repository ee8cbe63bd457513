import Mathlib.Tactic.Common
import ScriptUplift.Proofs.CleanPass
import ScriptUplift.Proofs.DeclaringLines
import ScriptUplift.Proofs.LeadingCode
import ScriptUplift.Proofs.LeadingWhitespace

namespace ScriptUplift

/-!
# Suppressed statements that are reported again

The first run reports each statement that it comments out.  The next run knows
them by their markers only, and a marker stands before every line of a statement
and before a string that documents it.  It therefore reports as much as the
first run just when no such line was commented out.
-/

/-- A text behind the marker of a suppressed line. -/
def Text.IsMarked
    (text : Text) :
    Prop :=
  (Marker.recover? text.dropIndentation).isSome = true

instance (text : Text) : Decidable text.IsMarked :=
  inferInstanceAs (Decidable (_ = true))

theorem Text.IsMarked.isComment
    {text : Text}
    (marked : text.IsMarked) :
    text.IsComment := by
  obtain ⟨payload, isPayload⟩ := Option.isSome_iff_exists.mp marked
  exact ⟨_, Text.afterHead?_eq_some_iff.mp isPayload⟩

theorem Text.IsMarked.of_sameCode
    {first second : Text}
    (same : first.SameCode second)
    (marked : second.IsMarked) :
    first.IsMarked := by
  unfold IsMarked at marked ⊢
  rwa [same]

/-- A text without code is blank when trimmed, or begins with the sign for comments. -/
theorem Text.hasNoCode_eq
    (text : Text) :
    text.hasNoCode = (text.trim.isEmpty || text.trim.startsWith ['#']) := by
  cases blank : text.isBlank with
  | true =>
      have nothing := (trim_eq_nil_iff text).mpr blank
      simp [hasNoCode, blank, nothing]
  | false =>
      have visible : text.trim ≠ [] := by
        rw [Ne, trim_eq_nil_iff, blank]
        exact Bool.false_ne_true
      obtain ⟨first, rest, front⟩ := List.exists_cons_of_ne_nil visible
      obtain ⟨behind, shape⟩ := text.trim_prefix
      rw [front, List.cons_append] at shape
      rw [hasNoCode, blank, front, ← shape]
      rfl

namespace Marker

/-- Whether a comment stands for a suppressed statement. -/
def reportsAgain
    (text : Text) :
    Bool :=
  (recover? text.dropIndentation).any (!Text.hasNoCode ·)

/-- Whether a line is reported as a suppressed statement. -/
def isReported
    (line : Line) :
    Bool :=
  (found? line).any (·.kind == .unresolvedOrphan)

theorem reportsAgain_of_not_isMarked
    {text : Text}
    (unmarked : ¬ text.IsMarked) :
    reportsAgain text = false := by
  unfold Text.IsMarked at unmarked
  rw [Option.not_isSome_iff_eq_none] at unmarked
  rw [reportsAgain, unmarked]
  rfl

theorem reportsAgain_of_sameCode
    {first second : Text}
    (same : first.SameCode second) :
    reportsAgain first = reportsAgain second := by
  unfold reportsAgain
  rw [same]

/-- What is found without the marker of a suppressed line is no suppressed statement. -/
theorem isReported_of_not_isMarked
    {line : Line}
    (unmarked : ¬ line.text.IsMarked) :
    isReported line = false := by
  unfold Text.IsMarked at unmarked
  rw [Option.not_isSome_iff_eq_none] at unmarked
  unfold isReported found? payload?
  rw [unmarked]
  split
  · cases legacy.findSome? line.text.dropIndentation.afterHead? with
    | none =>
        rfl
    | some payload =>
        dsimp only [Option.map_some]
        split <;> rfl
  · rfl

/-- A comment is reported as its text says. -/
theorem isReported_eq
    {line : Line}
    (comment : line.text.IsMarked → line.category = .comment) :
    isReported line = reportsAgain line.text := by
  by_cases marked : line.text.IsMarked
  · obtain ⟨payload, isPayload⟩ := Option.isSome_iff_exists.mp marked
    have bare : (decide (payload.trim = []) || payload.trim.startsWith ['#']) =
        payload.hasNoCode := by
      rw [Text.hasNoCode_eq]
      cases payload.trim <;> rfl
    unfold isReported found? payload? reportsAgain
    rw [if_pos (comment marked), isPayload, Option.any_some]
    dsimp only
    rw [bare]
    cases payload.hasNoCode <;> rfl
  · rw [reportsAgain_of_not_isMarked marked, isReported_of_not_isMarked marked]

end Marker

/-- The issues about statements that are commented out. -/
def Report.unresolved
    (report : Report) :
    List Issue :=
  report.issues.filter (·.kind == .unresolvedOrphan)

theorem length_unresolved_seedIssues
    (lines : List Line) :
    ((seedIssues lines).filter (·.kind == .unresolvedOrphan)).length =
      lines.countP Marker.isReported := by
  induction lines with
  | nil =>
      rfl
  | cons line rest inductionHypothesis =>
      rw [seedIssues] at inductionHypothesis ⊢
      rw [List.filterMap_cons, List.countP_cons, ← inductionHypothesis, Marker.isReported]
      cases Marker.found? line with
      | none =>
          rfl
      | some found =>
          rw [Option.map_some, Option.any_some, List.filter_cons]
          cases kind : found.kind == .unresolvedOrphan <;> simp [Marker.Found.issue, kind]

/-- A statement does not stand behind a marker. -/
theorem not_isMarked_of_isStatement
    {unit : IndentUnit}
    {lines : List Line}
    {line : Line}
    (member : line ∈ refreshLines unit lines)
    (statement : line.isStatement = true) :
    ¬ line.text.IsMarked := by
  intro marked
  have code := Line.isTrivia_of_isStatement statement
  rcases mem_classifyLines member with ⟨continues, _⟩ | ⟨context, _, classified⟩
  · rw [Line.continues_of_isStatement statement] at continues
    cases continues
  · rw [marked.isComment.classify_eq] at classified
    rw [← (Prod.mk.inj classified).1] at code
    cases code

/-- A suppressed statement is reported again unless its comment stands inside of a statement. -/
theorem isReported_of_mem_refreshLines
    {unit : IndentUnit}
    {lines : List Line}
    {line : Line}
    (member : line ∈ refreshLines unit lines) :
    Marker.isReported line = (!line.continues && Marker.reportsAgain line.text) := by
  rcases mem_classifyLines member with ⟨continues, noComment⟩ | ⟨context, starts, classified⟩
  · rw [continues, Marker.isReported, Marker.found?, noComment, if_neg (by decide)]
    rfl
  · rw [starts, Bool.not_false, Bool.true_and]
    refine Marker.isReported_eq fun marked => ?_
    rw [marked.isComment.classify_eq] at classified
    exact (Prod.mk.inj classified).1.symm

/-- The markers that stand inside of statements, where no run sees them. -/
def markersInside
    (lines : List Line) :
    Nat :=
  (lines.filter (·.continues)).countP (Marker.reportsAgain ·.text)

theorem countP_isReported_add_markersInside
    (unit : IndentUnit)
    (lines : List Line) :
    (refreshLines unit lines).countP Marker.isReported + markersInside (refreshLines unit lines) =
      (refreshLines unit lines).countP (Marker.reportsAgain ·.text) := by
  have outside : (refreshLines unit lines).countP Marker.isReported =
      ((refreshLines unit lines).filter (!·.continues)).countP (Marker.reportsAgain ·.text) := by
    rw [List.countP_filter]
    refine List.countP_congr fun line member => ?_
    rw [isReported_of_mem_refreshLines member, Bool.and_comm]
  have parts := List.countP_eq_countP_filter_add (refreshLines unit lines)
    (Marker.reportsAgain ·.text) (·.continues)
  rw [outside, parts, Nat.add_comm]
  rfl

/-! ## One run -/

/-- A rule changes nothing about the markers of a file. -/
theorem countP_reportsAgain_applyToEach
    (rule : UpliftRule)
    (above : Text)
    {lines : List Line}
    (unmarked : ∀ line ∈ lines, line.isStatement = true → ¬ line.text.IsMarked) :
    ((applyToEach rule above lines).flatMap Prod.fst).countP (Marker.reportsAgain ·.text) =
      lines.countP (Marker.reportsAgain ·.text) := by
  induction lines generalizing above with
  | nil =>
      rfl
  | cons line rest inductionHypothesis =>
      obtain ⟨lineUnmarked, restUnmarked⟩ := List.forall_mem_cons.mp unmarked
      rw [applyToEach, List.flatMap_cons, List.countP_append, inductionHypothesis _ restUnmarked,
        List.countP_cons, Nat.add_comm]
      congr 1
      rcases applyToLine_cases rule above line with
        alone | ⟨replacement, statement, matched, replaced⟩
      · rw [alone, List.countP_singleton]
      · have unreported : ∀ out ∈ replacement.lines, Marker.reportsAgain out = false := by
          intro out isOut
          have begins := UpliftRule.beginsInCode_of_apply matched out isOut
          exact Marker.reportsAgain_of_not_isMarked fun marked =>
            begins.not_isComment marked.isComment
        have lineUnreported := Marker.reportsAgain_of_not_isMarked (lineUnmarked statement)
        rw [lineUnreported, if_neg Bool.false_ne_true, replaced, List.countP_eq_zero]
        intro out isOut
        have left : out.text ∈ replacement.lines := by
          have isText := List.mem_map_of_mem (f := (·.text)) isOut
          simpa [Replacement.lines, Function.comp_def] using isText
        rw [unreported out.text left]
        exact Bool.false_ne_true

namespace Source

theorem Consistent.countP_reportsAgain_applyEverywhere
    {source : Source}
    (consistent : source.Consistent)
    (rule : UpliftRule) :
    (source.applyEverywhere rule).texts.countP Marker.reportsAgain =
      source.texts.countP Marker.reportsAgain := by
  rcases source.applyEverywhere_cases rule with ⟨_, same⟩ | ⟨total, _, applied⟩
  · rw [same]
  · have unmarked : ∀ line ∈ source.lines, line.isStatement = true → ¬ line.text.IsMarked := by
      intro line isLine statement
      rw [← consistent.fresh] at isLine
      exact not_isMarked_of_isStatement isLine statement
    have texts : (source.applyEverywhere rule).texts =
        ((applyToEach rule [] source.lines).flatMap Prod.fst).map (·.text) := by
      rw [applied]
      exact refreshLines_texts _ _
    rw [texts, Source.texts, List.countP_map, List.countP_map]
    exact countP_reportsAgain_applyToEach rule [] unmarked

/-- Uplift changes nothing about the markers of a file. -/
theorem Consistent.countP_reportsAgain_upliftStage
    {source : Source}
    (consistent : source.Consistent)
    (rules : List UpliftRule) :
    (source.upliftStage rules).texts.countP Marker.reportsAgain =
      source.texts.countP Marker.reportsAgain := by
  unfold Source.upliftStage
  have registered : (source.register (rules.map (·.name))).Consistent :=
    consistent.of_same rfl rfl
  rw [← texts_register source (rules.map (·.name))]
  generalize source.register (rules.map (·.name)) = entered at registered
  induction rules generalizing entered with
  | nil =>
      rfl
  | cons rule rest inductionHypothesis =>
      rw [List.foldl_cons, inductionHypothesis _ (registered.applyEverywhere rule),
        registered.countP_reportsAgain_applyEverywhere]

/-- Indentation repair changes nothing about the markers of a file. -/
theorem Consistent.countP_reportsAgain_indentStage
    {source : Source}
    (consistent : source.Consistent) :
    source.indentStage.texts.countP Marker.reportsAgain =
      source.texts.countP Marker.reportsAgain := by
  have same : source.indentStage.lines.map (Marker.reportsAgain ·.text) =
      source.lines.map (Marker.reportsAgain ·.text) := by
    refine map_eq_of_forall₂ (consistent.repaired_lines.imp fun line out repaired => ?_)
    exact (Marker.reportsAgain_of_sameCode repaired.moved.code).symm
  have counted := congrArg (List.countP id) same
  rw [List.countP_map, List.countP_map] at counted
  rw [texts, texts, List.countP_map, List.countP_map]
  exact counted

/-- Uplift reports nothing. -/
@[simp] theorem issues_upliftStage
    (rules : List UpliftRule)
    (source : Source) :
    (source.upliftStage rules).report.issues = source.report.issues := by
  unfold upliftStage
  have registered : (source.register (rules.map (·.name))).report.issues = source.report.issues :=
    rfl
  rw [← registered]
  generalize source.register (rules.map (·.name)) = entered
  clear registered
  induction rules generalizing entered with
  | nil =>
      rfl
  | cons rule rest inductionHypothesis =>
      rw [List.foldl_cons, inductionHypothesis]
      rcases entered.applyEverywhere_cases rule with ⟨_, same⟩ | ⟨total, _, applied⟩
      · rw [same]
      · rw [applied]
        rfl

/-- Indentation repair reports nothing. -/
@[simp] theorem issues_indentStage
    (source : Source) :
    source.indentStage.report.issues = source.report.issues := by
  unfold indentStage
  dsimp only
  split <;> rfl

end Source

namespace Pipeline

/-- A run reports the suppressed statements it finds and those it comments out. -/
theorem unresolved_migrated
    (config : Config)
    (path : String)
    (content : Text) :
    let before := (uplifted config path content).indentStage
    (migrated config path content).report.unresolved =
      (seedIssues before.lines).filter (·.kind == .unresolvedOrphan) ++
        (Orphan.segmentsOf before.lines).reverse.flatMap fun segment =>
          segment.suppressed.map Orphan.suppressIssue := by
  intro before
  have consistent : before.Consistent := (uplifted_consistent config path content).indentStage
  obtain ⟨references, issues, kinds⟩ := consistent.issues_orphanStage config.wrapperName
  have entered : before.report.issues = [] := by
    rw [Source.issues_indentStage, uplifted, Source.issues_upliftStage]
    rfl
  have noReference : references.filter (·.kind == .unresolvedOrphan) = [] := by
    rw [List.filter_eq_nil_iff]
    intro issue isIssue
    rw [kinds issue isIssue]
    decide
  have suppressed : ∀ issue ∈ (Orphan.segmentsOf before.lines).reverse.flatMap
      (fun segment => segment.suppressed.map Orphan.suppressIssue),
        (issue.kind == .unresolvedOrphan) = true := by
    intro issue isIssue
    obtain ⟨segment, _, ofSegment⟩ := List.mem_flatMap.mp isIssue
    obtain ⟨member, _, rfl⟩ := List.mem_map.mp ofSegment
    rfl
  rw [Report.unresolved, issues_migrated, repaired, issues, entered, List.nil_append,
    List.filter_append, List.filter_append, noReference, List.append_nil,
    List.filter_eq_self.mpr suppressed]

/--
A run reports as many suppressed statements as markers stand for that are seen,
and one for every statement that it comments out.
-/
theorem length_unresolved_migrated
    (config : Config)
    (path : String)
    (content : Text) :
    let before := (uplifted config path content).indentStage
    (migrated config path content).report.unresolved.length + markersInside before.lines =
      (Source.ofContent path content).texts.countP Marker.reportsAgain +
        ((Orphan.segmentsOf before.lines).flatMap (·.suppressed)).length := by
  intro before
  have consistent : before.Consistent := (uplifted_consistent config path content).indentStage
  have seen := countP_isReported_add_markersInside before.unit before.lines
  rw [consistent.fresh] at seen
  have markers : before.lines.countP (Marker.reportsAgain ·.text) =
      (Source.ofContent path content).texts.countP Marker.reportsAgain := by
    calc
      before.lines.countP (Marker.reportsAgain ·.text)
        = before.texts.countP Marker.reportsAgain := by
          rw [Source.texts, List.countP_map]
          rfl
      _ = (uplifted config path content).texts.countP Marker.reportsAgain :=
          (uplifted_consistent config path content).countP_reportsAgain_indentStage
      _ = (classified config path content).texts.countP Marker.reportsAgain :=
          (classified_consistent config path content).countP_reportsAgain_upliftStage _
      _ = _ := by
          rw [texts_classified]
  have suppressed : ((Orphan.segmentsOf before.lines).reverse.flatMap fun segment =>
      segment.suppressed.map Orphan.suppressIssue).length =
        ((Orphan.segmentsOf before.lines).flatMap (·.suppressed)).length := by
    rw [← List.map_flatMap, List.length_map]
    exact ((List.reverse_perm _).flatMap_right _).length_eq
  have reported : (migrated config path content).report.unresolved.length =
      before.lines.countP Marker.isReported +
        ((Orphan.segmentsOf before.lines).flatMap (·.suppressed)).length := by
    rw [unresolved_migrated, List.length_append, length_unresolved_seedIssues, suppressed]
  omega

end Pipeline

/-! ## What a run leaves for the next one -/

namespace Segment

/-- What is left of a line is reported again if the line was commented out and holds code. -/
theorem reportsAgain_textLeft
    (segment : Segment)
    (unit : IndentUnit)
    {line : Line}
    (unmarked : ¬ line.text.IsMarked) :
    Marker.reportsAgain (segment.textLeft unit line) =
      (segment.isRisky && !line.text.hasNoCode) := by
  have kept {left : Text} (same : line.text.SameCode left) :
      Marker.reportsAgain left = false :=
    Marker.reportsAgain_of_not_isMarked fun marked => unmarked (marked.of_sameCode same)
  cases blank : line.text.isBlank with
  | true =>
      have noCode : line.text.hasNoCode = true := by
        rw [Text.hasNoCode, blank, Bool.true_or]
      rw [textLeft, if_pos blank, kept (.refl _), noCode, Bool.not_true, Bool.and_false]
  | false =>
      unfold textLeft
      rw [blank, if_neg Bool.false_ne_true]
      cases risky : segment.isRisky with
      | true =>
          have flush : Text.dropIndentation (Marker.suppressed ++ line.text) =
              Marker.suppressed ++ line.text :=
            rfl
          have recovered := Source.recover_textLeft risky blank unit
          rw [textLeft, blank, if_neg Bool.false_ne_true, risky, if_pos rfl] at recovered
          rw [if_pos rfl, Marker.reportsAgain, flush, recovered, Option.any_some, Bool.true_and]
      | false =>
          rw [if_neg Bool.false_ne_true, Bool.false_and]
          split
          · exact kept (unit.sameCode_lead_append 1 _)
          · exact kept (.refl _)

variable {base : Text} {unit : IndentUnit} {segment : Segment}

/-- The statements that are commented out are reported again, and what else holds code with them. -/
theorem countP_reportsAgain
    {piece : List Line}
    (left : segment.LeftAs base unit piece)
    (unmarked : ∀ member ∈ segment.members, ¬ member.line.text.IsMarked) :
    piece.countP (Marker.reportsAgain ·.text) =
      if segment.isRisky then segment.members.countP (!·.line.text.hasNoCode) else 0 := by
  have ofTexts {lines : List Line} (texts : segment.LeavesTexts unit lines) :
      lines.countP (Marker.reportsAgain ·.text) =
        segment.members.countP fun member =>
          segment.isRisky && !member.line.text.hasNoCode := by
    calc
      lines.countP (Marker.reportsAgain ·.text)
        = (lines.map Line.entry).countP (Marker.reportsAgain ·.2) := by
          rw [List.countP_map]
          rfl
      _ = segment.members.countP fun member =>
            Marker.reportsAgain (segment.textLeft unit member.line) := by
          rw [texts, List.countP_map]
          rfl
      _ = _ := List.countP_congr fun member isMember => by
          rw [segment.reportsAgain_textLeft unit (unmarked member isMember)]
  cases left with
  | alone noSafe texts =>
      rw [ofTexts texts]
      cases segment.isRisky <;> simp
  | @wrapped header lines safe isHeader texts =>
      obtain ⟨_, depth, name, _, shape⟩ := isHeader
      have begins : header.text.BeginsInCode := by
        rw [shape, List.append_assoc, List.append_assoc]
        exact .indent (.append (.of_isIdentifierChar (by decide) _) _)
          (List.all_eq_true.mpr fun _ => IndentUnit.isIndentChar_of_mem_lead)
      have unreported : Marker.reportsAgain header.text = false :=
        Marker.reportsAgain_of_not_isMarked fun marked =>
          begins.not_isComment marked.isComment
      rw [List.countP_cons, unreported, if_neg Bool.false_ne_true, Nat.add_zero, ofTexts texts]
      cases segment.isRisky <;> simp

theorem countP_reportsAgain_flatten
    {segments : List Segment}
    {pieces : List (List Line)}
    (left : List.Forall₂ (LeftAs base unit) segments pieces)
    (unmarked : ∀ member ∈ segments.flatMap (·.members), ¬ member.line.text.IsMarked) :
    pieces.flatten.countP (Marker.reportsAgain ·.text) =
      ((segments.filter (·.isRisky)).flatMap (·.members)).countP (!·.line.text.hasNoCode) := by
  induction left with
  | nil =>
      rfl
  | @cons segment piece rest others ofSegment _ inductionHypothesis =>
      rw [List.flatMap_cons, List.forall_mem_append] at unmarked
      rw [List.flatten_cons, List.countP_append, countP_reportsAgain ofSegment unmarked.1,
        inductionHypothesis unmarked.2, List.filter_cons]
      split
      · rw [List.flatMap_cons, List.countP_append]
      · rw [Nat.zero_add]

end Segment

namespace Orphan

/-- The lines of the runs that are commented out. -/
def commentedOut
    (lines : List Line) :
    List Tracked :=
  ((segmentsOf lines).filter (·.isRisky)).flatMap (·.members)

theorem length_suppressed
    (segments : List Segment) :
    (segments.flatMap (·.suppressed)).length =
      ((segments.filter (·.isRisky)).flatMap (·.members)).countP (·.line.isStatement) := by
  induction segments with
  | nil =>
      rfl
  | cons segment rest inductionHypothesis =>
      rw [List.flatMap_cons, List.length_append, inductionHypothesis, List.filter_cons,
        Segment.suppressed]
      split
      · rw [List.flatMap_cons, List.countP_append, ← List.countP_eq_length_filter]
      · exact Nat.zero_add _

/-- What is commented out are lines of the file. -/
theorem exists_of_mem_commentedOut
    {lines : List Line}
    {member : Tracked}
    (isHidden : member ∈ commentedOut lines) :
    ∃ line ∈ lines, member.Shows line := by
  obtain ⟨segment, isRisky, ofSegment⟩ := List.mem_flatMap.mp isHidden
  have isMember := List.mem_flatMap.mpr ⟨segment, (List.mem_filter.mp isRisky).1, ofSegment⟩
  exact exists_left_of_forall₂ (segmentsOf_shows lines) isMember

/-- A statement that is commented out holds code. -/
theorem hasNoCode_of_isStatement
    {unit : IndentUnit}
    {lines : List Line}
    {member : Tracked}
    (isHidden : member ∈ commentedOut (refreshLines unit lines))
    (statement : member.line.isStatement = true) :
    member.line.text.hasNoCode = false := by
  obtain ⟨line, isLine, shows⟩ := exists_of_mem_commentedOut isHidden
  rw [shows.isStatement] at statement
  rw [shows.text, Bool.eq_false_iff]
  intro noCode
  have isCode := Line.isTrivia_of_isStatement statement
  rcases mem_classifyLines isLine with ⟨continues, _⟩ | ⟨context, _, classified⟩
  · rw [Line.continues_of_isStatement statement] at continues
    cases continues
  · have trivia := isTrivia_classify_of_hasNoCode context noCode
    rw [classified, isCode] at trivia
    cases trivia

end Orphan

/-- As many elements have the weaker property exactly when those that have it have the other. -/
theorem countP_eq_iff
    {α : Type}
    {weaker stronger : α → Bool}
    {elements : List α}
    (weakens : ∀ element ∈ elements, stronger element = true → weaker element = true) :
    elements.countP weaker = elements.countP stronger ↔
      ∀ element ∈ elements, weaker element = true → stronger element = true := by
  induction elements with
  | nil =>
      simp
  | cons element rest inductionHypothesis =>
      obtain ⟨own, others⟩ := List.forall_mem_cons.mp weakens
      have fewer := List.countP_mono_left others
      rw [List.forall_mem_cons, ← inductionHypothesis others, List.countP_cons, List.countP_cons]
      cases isStronger : stronger element with
      | true =>
          simp [own isStronger]
      | false =>
          cases weaker element with
          | true =>
              simp only [↓reduceIte, Bool.false_eq_true, imp_false, not_true_eq_false, false_and,
                iff_false]
              omega
          | false =>
              simp

namespace Pipeline

/-- Of content without markers no line that enters orphan repair stands behind one. -/
theorem not_isMarked_of_mem_indentStage
    {config : Config}
    {path : String}
    {content : Text}
    (unmarked : ∀ text ∈ (Source.ofContent path content).texts, ¬ text.IsMarked) :
    ∀ line ∈ (uplifted config path content).indentStage.lines, ¬ line.text.IsMarked := by
  intro out isOut marked
  obtain ⟨line, isLine, repaired⟩ :=
    exists_left_of_forall₂ (uplifted_consistent config path content).repaired_lines isOut
  rw [← texts_classified config path content] at unmarked
  exact Source.upliftStage_adds_no_comment (fun _ => Text.IsMarked.isComment) unmarked _ _
    (List.mem_map_of_mem isLine) (marked.of_sameCode repaired.moved.code)

/-- A run of content without markers leaves one for every line with code that it comments out. -/
theorem countP_reportsAgain_migrated
    {config : Config}
    {path : String}
    {content : Text}
    (unmarked : ∀ text ∈ (Source.ofContent path content).texts, ¬ text.IsMarked) :
    (migrated config path content).texts.countP Marker.reportsAgain =
      (Orphan.commentedOut (uplifted config path content).indentStage.lines).countP
        (!·.line.text.hasNoCode) := by
  have consistent := (uplifted_consistent config path content).indentStage
  have unmarkedMembers :
      ∀ member ∈ (Orphan.segmentsOf (uplifted config path content).indentStage.lines).flatMap
        (·.members), ¬ member.line.text.IsMarked := by
    intro member isMember
    obtain ⟨line, isLine, shows⟩ :=
      exists_left_of_forall₂ (Orphan.segmentsOf_shows _) isMember
    rw [shows.text]
    exact not_isMarked_of_mem_indentStage unmarked line isLine
  obtain ⟨resolved, isResolved, resolvedLeft⟩ :=
    Orphan.exists_pieces_resolvedLines config.wrapperName
      (uplifted config path content).indentStage.unit
      (uplifted config path content).indentStage.lines
  have entries := consistent.entries_orphanStage config.wrapperName
  rw [isResolved] at entries
  obtain ⟨pieces, isLeft, left⟩ := Segment.exists_pieces resolvedLeft entries
  have ofRepaired : (repaired config path content).lines.countP (Marker.reportsAgain ·.text) =
      (Orphan.commentedOut (uplifted config path content).indentStage.lines).countP
        (!·.line.text.hasNoCode) := by
    rw [repaired, isLeft]
    exact Segment.countP_reportsAgain_flatten left unmarkedMembers
  rw [← ofRepaired, Source.texts, List.countP_map, migrated]
  split
  · have regrouped := (repaired config path content).regrouped_canonicalStage
    refine Nat.le_antisymm (regrouped.countP_le _ rfl) (regrouped.le_countP _ ?_)
    intro line isBlank
    rw [Line.isBlank, Bool.and_eq_true] at isBlank
    refine Marker.reportsAgain_of_not_isMarked fun marked => ?_
    rw [marked.isComment.isBlank_eq_false] at isBlank
    cases isBlank.2
  · rfl

/-- A run on content without markers reports each statement that it comments out. -/
theorem unresolved_of_unmarked
    {config : Config}
    {path : String}
    {content : Text}
    (unmarked : ∀ text ∈ (Source.ofContent path content).texts, ¬ text.IsMarked) :
    let before := (uplifted config path content).indentStage
    (migrated config path content).report.unresolved =
        ((Orphan.segmentsOf before.lines).reverse.flatMap fun segment =>
          segment.suppressed.map Orphan.suppressIssue) ∧
      (migrated config path content).report.unresolved.length =
        (Orphan.commentedOut before.lines).countP (·.line.isStatement) := by
  intro before
  have noneFound : (seedIssues before.lines).filter (·.kind == .unresolvedOrphan) = [] := by
    rw [← List.length_eq_zero_iff, length_unresolved_seedIssues, List.countP_eq_zero]
    intro line isLine
    rw [Marker.isReported_of_not_isMarked (not_isMarked_of_mem_indentStage unmarked line isLine)]
    exact Bool.false_ne_true
  have reported : (migrated config path content).report.unresolved =
      (Orphan.segmentsOf before.lines).reverse.flatMap fun segment =>
        segment.suppressed.map Orphan.suppressIssue := by
    rw [unresolved_migrated, noneFound, List.nil_append]
  refine ⟨reported, ?_⟩
  rw [reported, ← List.map_flatMap, List.length_map, Orphan.commentedOut,
    ← Orphan.length_suppressed]
  exact ((List.reverse_perm _).flatMap_right _).length_eq

/-- What the next run reports of content that had no markers. -/
theorem length_unresolved_again
    {config : Config}
    {path : String}
    {content written : Text}
    (unmarked : ∀ text ∈ (Source.ofContent path content).texts, ¬ text.IsMarked)
    (readBack : (Source.ofContent path written).texts = (migrated config path content).texts) :
    (migrated config path written).report.unresolved.length +
        markersInside (uplifted config path written).indentStage.lines =
      (Orphan.commentedOut (uplifted config path content).indentStage.lines).countP
          (!·.line.text.hasNoCode) +
        (Orphan.commentedOut (uplifted config path written).indentStage.lines).countP
          (·.line.isStatement) := by
  rw [length_unresolved_migrated, readBack, countP_reportsAgain_migrated unmarked,
    Orphan.length_suppressed]
  rfl

/--
A default run on content without markers reports each statement that it comments
out once.  Where the next run reads back the lines that were written, it reports
every line with code that was commented out, but for those that stand inside of
a statement by then, and what it comments out itself.  If there are none of
either, the two runs report as much as each other exactly when every line with
code that was commented out is a statement of its own.
-/
theorem suppressed_lines_are_reported_again
    (path : String)
    (content : Text)
    (unmarked : ∀ text ∈ (Source.ofContent path content).texts, ¬ text.IsMarked) :
    ∃ pipeline,
      ofConfig .default = .ok pipeline ∧
        let first := (pipeline.run path content).1
        let second := (pipeline.run path first.render).1
        let before := (uplifted .default path content).indentStage
        let again := (uplifted .default path first.render).indentStage
        let hidden := Orphan.commentedOut before.lines
        let hiddenAgain := Orphan.commentedOut again.lines
        first.report.unresolved =
            ((Orphan.segmentsOf before.lines).reverse.flatMap fun segment =>
              segment.suppressed.map Orphan.suppressIssue) ∧
          first.report.unresolved.length = hidden.countP (·.line.isStatement) ∧
          ((Source.ofContent path first.render).texts = first.texts →
            second.report.unresolved.length + markersInside again.lines =
                hidden.countP (!·.line.text.hasNoCode) +
                  hiddenAgain.countP (·.line.isStatement) ∧
              (markersInside again.lines = 0 → hiddenAgain = [] →
                (second.report.unresolved.length = first.report.unresolved.length ↔
                  ∀ member ∈ hidden, member.line.text.hasNoCode = false →
                    member.line.isStatement = true))) := by
  have accepted : ofConfig .default = .ok ⟨stagesOf .default, countersOf .default⟩ := rfl
  refine ⟨_, accepted, ?_⟩
  simp only [run_eq_migrated accepted]
  obtain ⟨reported, counted⟩ := @unresolved_of_unmarked .default path content unmarked
  refine ⟨reported, counted, fun readBack => ?_⟩
  have again := length_unresolved_again unmarked readBack
  refine ⟨again, fun noneInside noneAnew => ?_⟩
  rw [noneInside, noneAnew, Nat.add_zero, List.countP_nil, Nat.add_zero] at again
  rw [again, counted]
  have weakens :
      ∀ member ∈ Orphan.commentedOut (uplifted .default path content).indentStage.lines,
        member.line.isStatement = true → (!member.line.text.hasNoCode) = true := by
    intro member isHidden statement
    have consistent := (uplifted_consistent .default path content).indentStage
    rw [← consistent.fresh] at isHidden
    rw [Orphan.hasNoCode_of_isStatement isHidden statement]
    rfl
  rw [countP_eq_iff weakens]
  simp only [Bool.not_eq_true']

/-- Two statements with a blank line and a comment between them. -/
def statementsApart : Text :=
  "foo()\n\n# why\nbar()\n".toList

/-- Statements of one line each are reported by both runs. -/
theorem statements_of_one_line_are_reported_alike :
    (∀ text ∈ (Source.ofContent "a.gd" statementsApart).texts, ¬ text.IsMarked) ∧
      let pipeline : Pipeline := ⟨stagesOf .default, countersOf .default⟩
      let first := (pipeline.run "a.gd" statementsApart).1
      let second := (pipeline.run "a.gd" first.render).1
      first.report.unresolved.length = 2 ∧
        second.report.unresolved.length = first.report.unresolved.length := by
  have unmarked : ∀ text ∈ (Source.ofContent "a.gd" statementsApart).texts, ¬ text.IsMarked := by
    decide +kernel
  refine ⟨unmarked, by decide +kernel, ?_⟩
  obtain ⟨pipeline, accepted, _, _, again⟩ :=
    suppressed_lines_are_reported_again "a.gd" statementsApart unmarked
  obtain rfl : ⟨stagesOf .default, countersOf .default⟩ = pipeline := Except.ok.inj accepted
  refine ((again (by decide +kernel)).2 (by decide +kernel) (by decide +kernel)).mpr ?_
  decide +kernel

/-- The second line of a statement is reported as one of its own by the second run. -/
theorem continued_line_is_reported_on_its_own :
    let pipeline : Pipeline := ⟨stagesOf .default, countersOf .default⟩
    let content := "foo(\n\t1)\n".toList
    let first := (pipeline.run "a.gd" content).1
    let second := (pipeline.run "a.gd" first.render).1
    ofConfig .default = .ok pipeline ∧
      (∀ text ∈ (Source.ofContent "a.gd" content).texts, ¬ text.IsMarked) ∧
      first.report.unresolved.length = 1 ∧ second.report.unresolved.length = 2 := by
  intro pipeline content first second
  refine ⟨rfl, ?_, ?_, ?_⟩
  · decide +kernel
  · decide +kernel
  · decide +kernel

end Pipeline

end ScriptUplift
