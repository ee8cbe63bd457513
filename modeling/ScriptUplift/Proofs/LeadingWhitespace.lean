import Mathlib.Tactic.Common
import ScriptUplift.Proofs.Nesting
import ScriptUplift.Proofs.Settled

namespace ScriptUplift

/-!
# Indentation repair changes leading whitespace only

A repaired line is the line it was, but for its leading spaces and tabs.  What
classification calls a comment or blank, and what stands inside of a multiline
string, is not moved at all.  Read again, every line continues, opens and
carries code as before, because whitespace in front of a line leaves no string,
bracket or backslash open.
-/

/-- How the identity of a line comes out of indentation repair: moved sideways, if at all. -/
structure Line.MovedTo
    (before : Line)
    (after : Identity) :
    Prop where
  number : after.number = before.number
  source : after.source = before.source
  code : before.text.SameCode after.text
  trivia : before.category.isTrivia = true → after.text = before.text
  inString : before.inString = true → after.text = before.text

/-- How a line comes out of indentation repair: moved sideways and known as it was. -/
structure Line.Repaired
    (before after : Line) :
    Prop where
  moved : before.MovedTo after.identity
  stays : before.Stays after

/-- A line that continues another one carries no category of its own. -/
theorem Line.category_of_continues
    {line : Line}
    {carry : Carry}
    {context : Context}
    {opens : Bool}
    (known : line.readIn carry context opens = line)
    (continues : line.continues = true) :
    line.category = .other := by
  rw [← known] at continues ⊢
  simp only [readIn, Bool.not_eq_true'] at continues ⊢
  rw [continues, if_neg Bool.false_ne_true]

/-- What begins inside of a string continues the line above. -/
theorem Line.continues_of_inString
    {line : Line}
    {carry : Carry}
    {context : Context}
    {opens : Bool}
    (known : line.readIn carry context opens = line)
    (inString : line.inString = true) :
    line.continues = true := by
  rw [← known] at inString ⊢
  simp only [readIn] at inString ⊢
  simp [Carry.isNeutral, Option.isNone_eq_false_iff.mpr inString]

namespace Indent

/-- Repair of lines that are known touches neither trivia nor strings, and code at its front only. -/
theorem repairLines_movedTo
    (unit : IndentUnit)
    (frames : List Frame)
    (shift : Int)
    {carry : Carry}
    {context : Context}
    {lines : List Line}
    (fresh : readLines carry context lines = lines) :
    List.Forall₂ Line.MovedTo lines
      ((repairLines unit frames shift lines).map Line.identity) := by
  induction lines generalizing frames shift carry context with
  | nil =>
      exact .nil
  | cons line rest inductionHypothesis =>
      rw [readLines_cons, List.cons.injEq] at fresh
      obtain ⟨known, below⟩ := fresh
      cases statement : line.isStatement with
      | false =>
          rw [repairLines_of_not_isStatement _ _ _ statement, List.map_cons]
          refine .cons ⟨rfl, rfl, ?_, ?_, ?_⟩ (inductionHypothesis frames shift below)
          · dsimp only [Line.identity]
            split
            · exact unit.sameCode_shift shift line.text
            · exact .refl line.text
          · intro trivia
            refine if_neg fun moves => ?_
            rw [Line.category_of_continues known moves.1] at trivia
            cases trivia
          · intro inString
            exact if_neg fun moves => absurd (moves.2.2.symm.trans inString) Bool.false_ne_true
      | true =>
          rw [repairLines_statement _ _ _ statement, List.map_cons]
          have code : line.category.isTrivia = false ∧ line.continues = false := by
            simpa [Line.isStatement, and_comm] using statement
          refine .cons ⟨rfl, rfl, unit.sameCode_reindent line.text _, ?_, ?_⟩
            (inductionHypothesis _ _ below)
          · intro trivia
            exact absurd (code.1.symm.trans trivia) Bool.false_ne_true
          · intro inString
            have continues := Line.continues_of_inString known inString
            exact absurd (code.2.symm.trans continues) Bool.false_ne_true

/-- Which lines are changed is told from the texts alone. -/
theorem changedLines_congr
    (before : List Line)
    {first second : List Line}
    (sameTexts : first.map (·.text) = second.map (·.text)) :
    changedLines before first = changedLines before second := by
  have counted (after : List Line) :
      changedLines before after =
        (before.zip (after.map (·.text))).countP fun pair => pair.1.text != pair.2 := by
    rw [List.zip_map_right, List.countP_map]
    rfl
  rw [counted, counted, sameTexts]

end Indent

namespace Source

/-- The lines of a repaired file are those of the file, one by one, moved sideways. -/
theorem Consistent.repaired_lines
    {source : Source}
    (consistent : source.Consistent) :
    List.Forall₂ Line.Repaired source.lines source.indentStage.lines := by
  have known : readLines .neutral { unit := source.unit } source.lines = source.lines :=
    consistent.fresh
  have lines : source.indentStage.lines =
      readLines .neutral { unit := source.unit }
        (Indent.repairLines source.unit [] 0 source.lines) :=
    lines_indentStage consistent
  have moved := Indent.repairLines_movedTo source.unit [] 0 known
  rw [← refreshLines_identity source.unit, ← lines_indentStage consistent,
    List.forall₂_map_right_iff] at moved
  have stays := readLines_reindented { unit := source.unit } { unit := source.unit }
    (Indent.repairLines_reindented source.unit [] 0 known)
  rw [known, ← lines] at stays
  exact moved.mp (fun _ _ isMoved keeps => ⟨isMoved, keeps⟩) stays

/-- Reading the repaired lines again changes no text, so that it does not bear on the count. -/
theorem Consistent.changedLines_indentStage
    {source : Source}
    (consistent : source.Consistent) :
    Indent.changedLines source.lines source.indentStage.lines =
      Indent.changedLines source.lines source.placedLines := by
  rw [lines_indentStage consistent]
  exact Indent.changedLines_congr _ (refreshLines_texts _ _)

/--
Indentation repair of any classified file keeps the lines in their order and
changes them in front only: comments, blank lines and lines inside of a
multiline string not at all, every other line at most in its leading spaces and
tabs.  It counts the lines it changed and nothing else.  The file it leaves is
read as it stands, and so every line continues another one, begins inside of a
string, opens a block and is a comment or blank as it was.
-/
theorem repair_changes_leading_whitespace_only
    (source : Source) :
    let before := source.refresh
    let after := before.indentStage
    List.Forall₂ Line.Repaired before.lines after.lines ∧
      (∀ name,
        after.counted name =
          before.counted name +
            if name = Indent.repairCounter then
              ((before.lines.zip after.lines).countP fun versions =>
                versions.1.text != versions.2.text : Int)
            else 0) ∧
      after.report.issues = before.report.issues ∧
      after.unit = before.unit ∧
      after.refresh = after := by
  intro before after
  have consistent : before.Consistent := refresh_consistent source
  refine ⟨consistent.repaired_lines, ?_, ?_, unit_indentStage consistent,
    consistent.indentStage.refresh_eq⟩
  · intro name
    rw [counted_indentStage, ← consistent.changedLines_indentStage]
    rfl
  · unfold after Source.indentStage
    dsimp only
    split <;> rfl

end Source

end ScriptUplift
