import Mathlib.Data.List.Forall2
import Mathlib.Tactic.Common
import ScriptUplift.Proofs.CallPieces
import ScriptUplift.Proofs.Indentation
import ScriptUplift.Proofs.Rereading

namespace ScriptUplift

/-!
# Reading lines that were moved sideways

Outside of a multiline string the spaces and tabs in front of a line tell its
depth and nothing else: the line leaves open what it left open, its statement
opens a block or not as before, and it stays a comment, a blank line or code.
Indentation repair moves lines in this way only.
-/

namespace Text

/-- A text with something visible is more than indentation. -/
theorem all_isIndentChar_of_not_isBlank
    {text : Text}
    (visible : text.isBlank = false) :
    text.all isIndentChar = false := by
  rw [Bool.eq_false_iff] at visible ⊢
  intro indents
  refine visible (List.all_eq_true.mpr fun character member => ?_)
  exact isBlankChar_of_isIndentChar (List.all_eq_true.mp indents character member)

namespace SameCode

/-- Texts with the same code are one code under two indentations. -/
theorem exists_code
    {first second : Text}
    (same : SameCode first second) :
    ∃ code : Text, first = first.indentation ++ code ∧ second = second.indentation ++ code := by
  refine ⟨first.dropIndentation, (indentation_append_dropIndentation first).symm, ?_⟩
  rw [same]
  exact (indentation_append_dropIndentation second).symm

theorem trim_eq
    {first second : Text}
    (same : SameCode first second) :
    first.trim = second.trim := by
  obtain ⟨code, firstShape, secondShape⟩ := same.exists_code
  have trimmed (text : Text) : (text.indentation ++ code).trim = code.trim :=
    trim_blank_append (List.all_eq_true.mpr fun _ member =>
      isBlankChar_of_isIndentChar (List.mem_takeWhile_imp member)) code
  rw [firstShape, secondShape, trimmed, trimmed]

/-- The end of a line, up to trailing indentation, is the end of its code. -/
theorem endsWith_dropEndIndentation
    {first second : Text}
    (same : SameCode first second)
    (mark : Char) :
    first.dropEndIndentation.endsWith [mark] = second.dropEndIndentation.endsWith [mark] := by
  obtain ⟨code, firstShape, secondShape⟩ := same.exists_code
  have endOf (text : Text) :
      (text.indentation ++ code).dropEndIndentation.endsWith [mark] =
        ((code.reverse.dropWhile isIndentChar).head? == some mark) := by
    have noneLeft : text.indentation.reverse.dropWhile isIndentChar = [] := by
      rw [List.dropWhile_eq_nil_iff]
      exact fun _ member => List.mem_takeWhile_imp (List.mem_reverse.mp member)
    unfold dropEndIndentation dropEndWhile endsWith
    rw [Bool.eq_iff_iff, List.isSuffixOf_iff_suffix, ← List.reverse_prefix, List.reverse_reverse,
      List.reverse_append, List.dropWhile_append, noneLeft]
    cases code.reverse.dropWhile isIndentChar with
    | nil =>
        simp
    | cons last others =>
        simp [List.cons_prefix_cons, eq_comm (a := mark)]
  rw [firstShape, secondShape, endOf, endOf]

end SameCode

end Text

namespace Scan

/-- Everything from a comment mark on is comment. -/
theorem line_comment
    (comment : Text) :
    line none ('#' :: comment) = ⟨[], '#' :: comment, 0, none⟩ := by
  rcases comment with _ | ⟨second, _ | ⟨third, others⟩⟩ <;> rfl

/-- A character of code that starts neither a comment nor a string is read by itself. -/
theorem line_cons_plain
    {character : Char}
    (noComment : character ≠ '#')
    (noQuote : isQuoteMark character = false)
    (rest : Text) :
    line none (character :: rest) = cons character (bracketStep character) (line none rest) := by
  rcases rest with _ | ⟨second, _ | ⟨third, others⟩⟩ <;> simp [line, noComment, noQuote]

/-- Plain characters in front of code are read as code and change nothing else. -/
theorem line_append_of_plain
    {leading : Text}
    (plain : leading.all isPlainChar = true)
    (text : Text) :
    line none (leading ++ text) =
      { line none text with code := leading ++ (line none text).code } := by
  induction leading with
  | nil =>
      rfl
  | cons character rest inductionHypothesis =>
      obtain ⟨own, others⟩ := Bool.and_eq_true_iff.mp plain
      rw [List.cons_append, line_cons_plain (ne_of_isPlainChar own (by decide))
        (isQuoteMark_of_isPlainChar own), bracketStep_of_isPlainChar own,
        inductionHypothesis others]
      simp [cons]

theorem line_blanks_append
    {leading : Text}
    (blank : ∀ character ∈ leading, isBlankChar character = true)
    (text : Text) :
    line none (leading ++ text) =
      { line none text with code := leading ++ (line none text).code } :=
  line_append_of_plain (all_isPlainChar_of_blank (List.all_eq_true.mpr blank)) text

/-- Indentation in front of code is read as code and changes nothing else. -/
theorem line_indentation_append
    {leading : Text}
    (indents : ∀ character ∈ leading, isIndentChar character = true)
    (text : Text) :
    line none (leading ++ text) =
      { line none text with code := leading ++ (line none text).code } :=
  line_blanks_append
    (fun character member => isBlankChar_of_isIndentChar (indents character member)) text

/-- What a line is scanned as when it was moved sideways. -/
structure Moved
    (before after : Scan) :
    Prop where
  code : before.code.SameCode after.code
  delta : after.delta = before.delta
  openString : after.openString = before.openString

theorem Moved.backslash_eq
    {before after : Scan}
    (moved : Moved before after) :
    after.backslash = before.backslash := by
  unfold backslash
  rw [moved.openString, moved.code.endsWith_dropEndIndentation]

theorem moved_of_sameCode
    {first second : Text}
    (same : first.SameCode second) :
    Moved (line none first) (line none second) := by
  obtain ⟨code, firstShape, secondShape⟩ := same.exists_code
  have scanned (text : Text) :
      line none (text.indentation ++ code) =
        { line none code with code := text.indentation ++ (line none code).code } :=
    line_indentation_append (fun _ member => List.mem_takeWhile_imp member) code
  have under (text : Text) :
      Text.SameCode (line none code).code (text.indentation ++ (line none code).code) :=
    .append_left (fun _ member => List.mem_takeWhile_imp member) _
  rw [firstShape, secondShape, scanned, scanned]
  exact ⟨(under first).symm.trans (under second), rfl, rfl⟩

/-- A line that is moved only outside of strings is scanned as a moved line. -/
theorem moved_of_kept
    {carry : Carry}
    {text moved : Text}
    (same : text.SameCode moved)
    (kept : carry.openString.isSome = true → moved = text) :
    Moved (line carry.openString text) (line carry.openString moved) := by
  cases opened : carry.openString with
  | none =>
      exact moved_of_sameCode same
  | some quote =>
      rw [kept (by rw [opened]; rfl)]
      exact ⟨.refl _, rfl, rfl⟩

end Scan

theorem Carry.after_moved
    (carry : Carry)
    {before after : Scan}
    (moved : before.Moved after) :
    carry.after after = carry.after before := by
  unfold Carry.after
  rw [moved.delta, moved.openString, moved.backslash_eq]

theorem opensBlock_moved
    {before after : Scan}
    (moved : before.Moved after) :
    opensBlock after.code = opensBlock before.code := by
  unfold opensBlock
  rw [moved.code.endsWith_dropEndIndentation]

/-- Texts that are moved sideways one by one, and not at all inside of a multiline string. -/
inductive Reindented : Carry → List Text → List Text → Prop
  | nil (carry : Carry) :
      Reindented carry [] []
  | cons
      {carry : Carry}
      {text moved : Text}
      {rest others : List Text}
      (same : text.SameCode moved)
      (kept : carry.openString.isSome = true → moved = text)
      (below : Reindented (carry.after (Scan.line carry.openString text)) rest others) :
      Reindented carry (text :: rest) (moved :: others)

/-- A statement opens a block or not wherever its lines were moved. -/
theorem leadsBlock_reindented
    {carry : Carry}
    {first second : List Line}
    (reindented : Reindented carry (first.map (·.text)) (second.map (·.text))) :
    leadsBlock carry second = leadsBlock carry first := by
  unfold leadsBlock
  induction first generalizing carry second with
  | nil =>
      cases second with
      | nil =>
          rfl
      | cons other others =>
          cases reindented
  | cons line rest inductionHypothesis =>
      cases second with
      | nil =>
          cases reindented
      | cons other others =>
          rw [List.map_cons, List.map_cons] at reindented
          cases reindented with
          | cons same kept below =>
              have moved := Scan.moved_of_kept same kept
              simp only [List.map_cons, Reading.lines, List.zip_cons_cons, statementOpens,
                Reading.completes]
              rw [carry.after_moved moved, opensBlock_moved moved, inductionHypothesis below]
              rfl

/-- Code, comments and blank lines are told apart, and so are annotations, by the code alone. -/
theorem classify_moved
    (first second : Context)
    {text moved : Text}
    (same : text.SameCode moved) :
    (classify second moved).2 = (classify first text).2 ∧
      ((classify second moved).1.isTrivia = true →
        (classify second moved).1 = (classify first text).1) ∧
      (classify second moved).1.isTrivia = (classify first text).1.isTrivia := by
  have sameTrim := (Scan.moved_of_sameCode same).code.trim_eq
  unfold classify
  dsimp only
  rw [← same.isBlank_eq, ← sameTrim]
  split
  · exact ⟨rfl, fun _ => rfl, rfl⟩
  · split
    · exact ⟨rfl, fun _ => rfl, rfl⟩
    · split
      · have ofAnnotations (context : Context) (kind : AnnotationKind) :
            (classifyAnnotations context kind).1.isTrivia = false ∧
              (classifyAnnotations context kind).2 = (kind != .header) := by
          unfold classifyAnnotations
          cases kind <;> dsimp only <;> (try split_ifs) <;> exact ⟨rfl, rfl⟩
        simp only [ofAnnotations]
        exact ⟨trivial, by simp, trivial⟩
      · have ofCode (context : Context) (depth : Nat) (kind : AnnotationKind) (code : Text) :
            (Category.ofKeyword context depth kind code).isTrivia = false :=
          (Category.ofKeywordWithin_ofCode _ _ _ _ _).2
        simp only [ofCode]
        exact ⟨trivial, by simp, trivial⟩

/-- What a line keeps when it is moved sideways: everything known but its depth and category. -/
structure Line.Stays
    (before after : Line) :
    Prop where
  continues : after.continues = before.continues
  inString : after.inString = before.inString
  opens : after.opens = before.opens
  annotationOnly : after.annotationOnly = before.annotationOnly
  trivia : after.category.isTrivia = before.category.isTrivia
  triviaKind : after.category.isTrivia = true → after.category = before.category

theorem Line.Stays.isStatement_eq
    {before after : Line}
    (stays : before.Stays after) :
    after.isStatement = before.isStatement := by
  unfold isStatement
  rw [stays.continues, stays.trivia]

/-- A line that was moved sideways is read as the line it was. -/
theorem Line.readIn_moved
    {before after : Line}
    {carry : Carry}
    (first second : Context)
    (opens : Bool)
    (same : before.text.SameCode after.text) :
    (before.readIn carry first opens).Stays (after.readIn carry second opens) := by
  obtain ⟨annotations, triviaKind, trivia⟩ := classify_moved first second same
  unfold readIn
  cases carry.isNeutral with
  | false =>
      exact ⟨rfl, rfl, rfl, rfl, rfl, fun _ => rfl⟩
  | true =>
      exact ⟨rfl, rfl, by simp [trivia], annotations, trivia, triviaKind⟩

/-- Lines that were moved sideways are read, one by one, as the lines they were. -/
theorem readLines_reindented
    {carry : Carry}
    (first second : Context)
    {before after : List Line}
    (reindented : Reindented carry (before.map (·.text)) (after.map (·.text))) :
    List.Forall₂ Line.Stays (readLines carry first before) (readLines carry second after) := by
  induction before generalizing carry first second after with
  | nil =>
      cases after with
      | nil =>
          exact .nil
      | cons other others =>
          cases reindented
  | cons line rest inductionHypothesis =>
      cases after with
      | nil =>
          cases reindented
      | cons other others =>
          have sameOpens := leadsBlock_reindented reindented
          rw [List.map_cons, List.map_cons] at reindented
          cases reindented with
          | cons same kept below =>
              rw [readLines_cons, readLines_cons, sameOpens,
                carry.after_moved (Scan.moved_of_kept same kept)]
              exact .cons (Line.readIn_moved first second _ same) (inductionHypothesis _ _ below)

/-- Texts that were moved sideways leave open what they left open. -/
theorem Reindented.through_eq
    {carry : Carry}
    {first second : List Text}
    (reindented : Reindented carry first second) :
    carry.through second = carry.through first := by
  induction reindented with
  | nil carry =>
      rfl
  | cons same kept below inductionHypothesis =>
      rw [Carry.through, Carry.through, ← inductionHypothesis,
        Carry.after_moved _ (Scan.moved_of_kept same kept)]

namespace Indent

/-- Repair of lines that are known moves them sideways. -/
theorem repairLines_reindented
    (unit : IndentUnit)
    (frames : List Frame)
    (shift : Int)
    {carry : Carry}
    {context : Context}
    {lines : List Line}
    (fresh : readLines carry context lines = lines) :
    Reindented carry (lines.map (·.text))
      ((repairLines unit frames shift lines).map (·.text)) := by
  induction lines generalizing frames shift carry context with
  | nil =>
      exact .nil carry
  | cons line rest inductionHypothesis =>
      rw [readLines_cons, List.cons.injEq] at fresh
      obtain ⟨own, below⟩ := fresh
      have inString : line.inString = carry.openString.isSome := by
        rw [← own]
        rfl
      have starts : line.continues = false → carry.openString.isSome = false := by
        rw [← own]
        intro neutral
        simp only [Line.readIn, Bool.not_eq_false', Carry.isNeutral_iff] at neutral
        rw [neutral]
        rfl
      unfold repairLines planLines
      split
      · refine .cons (Move.sameCode unit line.text _) ?_ (inductionHypothesis frames shift below)
        intro opened
        simp [PlannedLine.moved, Move.text, inString, opened]
      · rename_i start
        have noString := starts (Bool.not_eq_true _ ▸ start)
        split
        · exact .cons (.refl line.text) (fun _ => rfl) (inductionHypothesis frames shift below)
        · refine .cons (unit.sameCode_reindent line.text _) ?_ (inductionHypothesis _ _ below)
          intro opened
          rw [noString] at opened
          cases opened

end Indent

end ScriptUplift
