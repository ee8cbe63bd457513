import Mathlib.Tactic.Common
import ScriptUplift.Proofs.DeclaringLines
import ScriptUplift.Proofs.NamesInCode

namespace ScriptUplift

/-!
# Suppressed names are flagged where they are used

Lines that stand for declarations are comments, so that the search for the first
use of a name passes over nothing else than lines without code.  What it reports
about a name is therefore the first line of code that uses the name below the
line that declares it; on lines that read plainly this is the first line whose
code has the name in it.
-/

/-- The first match is found by any condition that holds of the same elements. -/
theorem find?_congr_of_mem
    {α : Type}
    {first second : α → Bool}
    {items : List α}
    (same : ∀ item ∈ items, first item = second item) :
    items.find? first = items.find? second := by
  rw [← List.head?_filter, ← List.head?_filter, List.filter_congr same]

/-- Passing over lines that stand for declarations is passing over comments. -/
theorem Tracked.firstUse?_eq
    {tracked : List Tracked}
    (comments : ∀ member ∈ tracked, member.declares.isSome = true →
      member.line.category = .comment)
    (live : List Text)
    (name : Text) :
    firstUse? live name tracked = (tracked.map (·.line)).find? (·.uses name) := by
  rw [firstUse?, List.find?_map]
  refine congrArg _ (find?_congr_of_mem fun member isMember => ?_)
  cases brings : member.bringsName live with
  | false =>
      rfl
  | true =>
      have declares : member.declares.isSome = true := by
        obtain ⟨name, isName⟩ := Option.isSome_iff_exists.mp brings
        rw [(Option.filter_eq_some_iff.mp isName).1]
        rfl
      have comment := comments member isMember declares
      simp [Line.uses, comment, Category.isTrivia]

namespace Source

/--
The reports on a name at its first use: none if live code declares the name, and
else at most one, about the first line with a use below the declaration.
-/
def issuesAtFirstUse
    (after : Source)
    (left : List Tracked)
    (isUse : Text → Line → Bool)
    (name : Text) :
    List Issue :=
  if (namesInUse after.lines).contains name then []
  else
    (((Tracked.belowDeclaration name left).map (·.line)).find? (isUse name)).toList.map
      (referenceIssue · name ((after.suppressed.lookup name).getD 0))

/-- How a file is left by orphan repair that flags the first uses of suppressed names. -/
structure FlagsFirstUses
    (wrapperName : String)
    (before after : Source)
    (left : List Tracked)
    (references : List Issue) :
    Prop where
  lines : left.map (·.line) = after.lines
  /-- Stretch by stretch, the lines stand for the names that they declare. -/
  stretches :
    ∃ pieces, left = pieces.flatten ∧
      List.Forall₂ (Segment.TrackedAs (Orphan.baseName wrapperName) before.unit)
        (Orphan.segmentsOf before.lines) pieces
  comments :
    ∀ tracked ∈ left, tracked.declares.isSome = true → tracked.line.category = .comment
  issues :
    after.report.issues =
      before.report.issues ++ seedIssues before.lines ++
        ((Orphan.segmentsOf before.lines).reverse.flatMap fun segment =>
          segment.suppressed.map Orphan.suppressIssue) ++
        references
  kinds : ∀ issue ∈ references, issue.kind = .suppressedReference
  /-- What the search takes for a use is reported. -/
  flagged :
    ∀ name, references.filter (·.name == String.ofList name) =
      after.issuesAtFirstUse left Line.uses name
  /-- A name is reported where the code has it, if the code below reads plainly. -/
  flaggedInCode :
    ∀ name,
      (∀ tracked ∈ Tracked.belowDeclaration name left,
        tracked.line.category.isTrivia = false → tracked.line.ReadsPlainly) →
      references.filter (·.name == String.ofList name) =
        after.issuesAtFirstUse left (fun name line => decide (line.Names name)) name

/--
Orphan repair of a file that is known line by line flags every name that is
declared by suppressed lines only, and no other name, exactly once: at the first
line of code below the declaration that uses the name.  If the code below reads
plainly this is the first line that has the name in its code, outside of strings
and comments and not as a member of another object.
-/
theorem suppressed_names_are_flagged_at_first_use
    (source : Source)
    (consistent : source.Consistent)
    (wrapperName : String)
    (named : isIdentifier (Orphan.baseName wrapperName) = true) :
    ∃ left references,
      source.FlagsFirstUses wrapperName (source.orphanStage wrapperName) left references := by
  have leftBy := consistent.leftByOrphanStage wrapperName
  have lines := consistent.map_line_trackedBehind wrapperName
  have comments : ∀ tracked ∈ source.trackedBehind wrapperName,
      tracked.declares.isSome = true → tracked.line.category = .comment :=
    fun tracked isLeft declares => (consistent.comment_of_declares named isLeft declares).1
  have flagged (name : Text) :
      (referenceIssues (source.orphanStage wrapperName).suppressed
          (source.trackedBehind wrapperName)).filter (·.name == String.ofList name) =
        (source.orphanStage wrapperName).issuesAtFirstUse (source.trackedBehind wrapperName)
          Line.uses name := by
    rw [referenceIssues_filter, lines, Tracked.firstUse?_eq fun member isBelow =>
      comments member (Tracked.mem_of_mem_belowDeclaration isBelow)]
    rfl
  refine ⟨source.trackedBehind wrapperName, _, lines,
    consistent.exists_pieces_trackedBehind wrapperName, comments, ?_,
    fun _ => kind_of_mem_referenceIssues, flagged, ?_⟩
  · rw [leftBy.issues, Orphan.issues_verdictsOf wrapperName consistent.fresh]
  · intro name plain
    rw [flagged, issuesAtFirstUse, issuesAtFirstUse]
    have same : ((Tracked.belowDeclaration name (source.trackedBehind wrapperName)).map
          (·.line)).find? (Line.uses name) =
        ((Tracked.belowDeclaration name (source.trackedBehind wrapperName)).map
          (·.line)).find? (fun line => decide (line.Names name)) := by
      refine find?_congr_of_mem fun line isLine => ?_
      obtain ⟨tracked, isBelow, rfl⟩ := List.mem_map.mp isLine
      cases trivia : tracked.line.category.isTrivia with
      | true =>
          simp [Line.uses, Line.Names, trivia]
      | false =>
          rw [Bool.eq_iff_iff, (plain tracked isBelow trivia).uses_iff, decide_eq_true_iff]
    rw [same]

/-- A name in a string, in a comment or of another object is passed over; the use is flagged. -/
theorem plain_use_of_suppressed_name_is_flagged :
    let content := "x = foo()\nfunc f():\n\ty.x = \"x\" # x\n\tprint(self.x)\n".toList
    let source :=
      (((ofContent "x.gd" content).classifyStage .detected 4).upliftStage
        (UpliftRule.enabled [])).indentStage
    (source.Consistent ∧ isIdentifier (Orphan.baseName "") = true ∧
      ∃ left references,
        source.FlagsFirstUses "" (source.orphanStage "") left references) ∧
      (∀ line ∈ (source.orphanStage "").lines, line.ReadsPlainly) ∧
      (source.orphanStage "").report.issues.map (fun issue =>
          (issue.kind, issue.line, issue.name)) =
        [(.unresolvedOrphan, 1, ""), (.suppressedReference, 4, "x")] := by
  intro content source
  have consistent : source.Consistent :=
    ((classifyStage_consistent .detected 4 _).upliftStage _).indentStage
  refine ⟨⟨consistent, by decide,
    suppressed_names_are_flagged_at_first_use source consistent "" (by decide)⟩, ?_, ?_⟩
  · decide +kernel
  · decide +kernel

/--
A member of an object whose name just ends like the word for the object itself is
flagged, and so is text in a string of several lines.
-/
theorem member_of_other_object_and_text_are_flagged :
    let leftOf := fun content : String =>
      ((((ofContent "x.gd" content.toList).classifyStage .detected 4).upliftStage
        (UpliftRule.enabled [])).indentStage).orphanStage ""
    let flags := fun source : Source =>
      (source.report.issues.filter (·.kind == .suppressedReference)).map fun issue =>
        (issue.line, issue.name)
    let other := leftOf "x = foo()\nfunc f():\n\tmyself.x = 1\n\tprint(x)\n"
    let text := leftOf "x = foo()\nfunc f():\n\tvar s = \"\"\"\n\tx\"\"\"\n"
    (flags other = [(3, "x")] ∧ (namesInUse other.lines).contains "x".toList = false ∧
        other.lines.map (fun line => (line.number, decide (line.Names "x".toList))) =
          [(1, false), (2, false), (3, false), (4, true)]) ∧
      flags text = [(4, "x")] ∧
        text.lines.map (fun line =>
            (line.number, line.inString, decide (line.Names "x".toList))) =
          [(1, false, false), (2, false, false), (3, false, false), (4, true, true)] := by
  decide +kernel

end Source

end ScriptUplift
