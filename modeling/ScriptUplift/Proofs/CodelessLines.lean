import Mathlib.Data.List.InsertIdx
import Mathlib.Tactic.Common
import ScriptUplift.Proofs.CallReading
import ScriptUplift.Proofs.LineEndings
import ScriptUplift.Proofs.Nesting

namespace ScriptUplift

/-!
# Lines without code

A comment or a blank line between two statements says nothing about structure.
Detection, classification and repair each carry something from line to line (the
last opening of a block, the statement above, the open blocks), and each of them
carries it past such a line as it is.  A file and the same file with one more
line of this kind are therefore known and repaired alike, line by line, under
one unit.
-/

namespace Text

/-- Whether a text is blank, up to a comment if there is one. -/
def hasNoCode
    (text : Text) :
    Bool :=
  text.isBlank || Text.startsWith (text.dropWhile isBlankChar) ['#']

/-- What precedes the end or the comment of a text without code is blank. -/
theorem exists_of_hasNoCode
    {text : Text}
    (noCode : text.hasNoCode = true) :
    ∃ blanks rest : Text, text = blanks ++ rest ∧ (∀ character ∈ blanks, isBlankChar character) ∧
      (rest = [] ∨ ∃ comment, rest = '#' :: comment) := by
  rw [hasNoCode, Bool.or_eq_true] at noCode
  rcases noCode with blank | commented
  · exact ⟨text, [], (List.append_nil text).symm, List.all_eq_true.mp blank, .inl rfl⟩
  · obtain ⟨comment, shape⟩ := List.isPrefixOf_iff_prefix.mp commented
    exact ⟨text.takeWhile isBlankChar, text.dropWhile isBlankChar,
      List.takeWhile_append_dropWhile.symm, fun _ member => List.mem_takeWhile_imp member,
      .inr ⟨comment, shape.symm⟩⟩

end Text

/-- A line that is scanned in this way holds no code and opens nothing. -/
structure Scan.Empty
    (scan : Scan) :
    Prop where
  code : scan.code.isBlank = true
  delta : scan.delta = 0
  openString : scan.openString = none

namespace Scan.Empty

/-- A text without code is scanned as empty. -/
theorem of_hasNoCode
    {text : Text}
    (noCode : text.hasNoCode = true) :
    (line none text).Empty := by
  obtain ⟨blanks, rest, rfl, blank, restShape⟩ := Text.exists_of_hasNoCode noCode
  have scanned := line_blanks_append blank rest
  have nothing : (line none rest).code = [] ∧ (line none rest).delta = 0 ∧
      (line none rest).openString = none := by
    rcases restShape with rfl | ⟨comment, rfl⟩
    · exact ⟨rfl, rfl, rfl⟩
    · rw [line_comment]
      exact ⟨rfl, rfl, rfl⟩
  rw [scanned]
  refine ⟨?_, nothing.2.1, nothing.2.2⟩
  rw [nothing.1, List.append_nil]
  exact List.all_eq_true.mpr blank

theorem backslash_eq
    {scan : Scan}
    (empty : scan.Empty) :
    scan.backslash = false := by
  have noBackslash : '\\' ∉ scan.code := by
    intro among
    have blank := List.all_eq_true.mp empty.code '\\' among
    exact absurd blank (by decide)
  rw [backslash, Bool.and_eq_false_iff]
  refine .inr (Bool.eq_false_iff.mpr fun ends => noBackslash ?_)
  have last := (List.isSuffixOf_iff_suffix.mp ends).subset List.mem_cons_self
  exact List.mem_reverse.mp
    ((List.dropWhile_sublist _).subset (List.mem_reverse.mp last))

/-- Nothing is open below an empty line when nothing was open above it. -/
theorem after_neutral
    {scan : Scan}
    (empty : scan.Empty) :
    Carry.neutral.after scan = .neutral := by
  rw [Carry.after, empty.backslash_eq, empty.delta, empty.openString]
  rfl

end Scan.Empty

/-- A text without code is a comment or blank in every context. -/
theorem isTrivia_classify_of_hasNoCode
    (context : Context)
    {text : Text}
    (noCode : text.hasNoCode = true) :
    (classify context text).1.isTrivia = true := by
  have nothing : (Scan.line none text).code.trim = [] :=
    (Text.trim_eq_nil_iff _).mpr (Scan.Empty.of_hasNoCode noCode).code
  unfold classify
  rw [nothing]
  split <;> rfl

/-- A line without code, read where nothing is open, starts no statement. -/
theorem Line.isStatement_of_hasNoCode
    {line : Line}
    (noCode : line.text.hasNoCode = true)
    (context : Context)
    (opens : Bool) :
    (line.readIn .neutral context opens).isStatement = false := by
  have trivia := isTrivia_classify_of_hasNoCode context noCode
  simp [isStatement, readIn, Carry.isNeutral, Carry.neutral, trivia]

/-- The lines below one without code are read as if it were not there. -/
theorem readLines_cons_of_hasNoCode
    {extra : Line}
    (noCode : extra.text.hasNoCode = true)
    (context : Context)
    (below : List Line) :
    readLines .neutral context (extra :: below) =
      extra.readIn .neutral context (leadsBlock .neutral (extra :: below)) ::
        readLines .neutral context below := by
  have closed := (Scan.Empty.of_hasNoCode noCode).after_neutral
  rw [readLines_cons, Context.below, Line.isStatement_of_hasNoCode noCode,
    if_neg Bool.false_ne_true]
  exact congrArg (_ :: readLines · context below) closed

/-- Lines, and the same with one more, without code, at an index at which nothing is open. -/
inductive PaddedAt : Nat → List Line → List Line → Prop
  | intro
      (above below : List Line)
      {extra : Line}
      (noCode : extra.text.hasNoCode = true)
      (closed : Carry.neutral.through (above.map (·.text)) = .neutral) :
      PaddedAt above.length (above ++ below) (above ++ extra :: below)

namespace PaddedAt

/-- Without the one more line, the lines are the same. -/
theorem eraseIdx_eq
    {index : Nat}
    {lines padded : List Line}
    (isPadded : PaddedAt index lines padded) :
    padded.eraseIdx index = lines := by
  cases isPadded with
  | intro above below noCode closed =>
      rw [List.eraseIdx_append_of_length_le (Nat.le_refl _), Nat.sub_self]
      rfl

/-- Classification finds the same with and without the one more line. -/
theorem refreshLines
    {index : Nat}
    {lines padded : List Line}
    (isPadded : PaddedAt index lines padded)
    (unit : IndentUnit) :
    PaddedAt index (refreshLines unit lines) (refreshLines unit padded) := by
  cases isPadded with
  | @intro above below extra noCode closed =>
      have length : (ScriptUplift.refreshLines unit above).length = above.length :=
        length_readLines _ _ _
      have stillClosed : Carry.neutral.through
          ((ScriptUplift.refreshLines unit above).map (·.text)) = .neutral := by
        rw [refreshLines_texts]
        exact closed
      have read (rest : List Line) :
          ScriptUplift.refreshLines unit (above ++ rest) =
            ScriptUplift.refreshLines unit above ++
              readLines .neutral
                (Context.belowAll { unit := unit } (ScriptUplift.refreshLines unit above)) rest :=
        readLines_append closed _ _
      rw [read, read, readLines_cons_of_hasNoCode noCode, ← length]
      exact .intro _ _ noCode stillClosed

/-- Repair does the same with and without the one more line. -/
theorem repair
    {index : Nat}
    {lines padded : List Line}
    (isPadded : PaddedAt index lines padded)
    {unit : IndentUnit}
    (fresh : ScriptUplift.refreshLines unit padded = padded)
    (progress : Indent.Progress) :
    PaddedAt index (progress.repair unit lines) (progress.repair unit padded) := by
  cases isPadded with
  | @intro above below extra noCode closed =>
      have read := readLines_append closed { unit := unit } (extra :: below)
      rw [readLines_cons_of_hasNoCode noCode] at read
      obtain ⟨aboveFresh, restFresh⟩ :=
        List.append_inj (read.symm.trans fresh) (length_readLines _ _ _)
      have known := (List.cons.inj restFresh).1
      have noStatement : extra.isStatement = false := by
        rw [← known]
        exact Line.isStatement_of_hasNoCode noCode _ _
      have starts : extra.continues = false := by
        rw [← known]
        rfl
      have length : (progress.repair unit above).length = above.length :=
        Indent.length_repairLines _ _ _ _
      have stillClosed : Carry.neutral.through
          ((progress.repair unit above).map (·.text)) = .neutral :=
        (Indent.repairLines_reindented _ _ _ aboveFresh).through_eq.trans closed
      have passed (here : Indent.Progress) :
          here.repair unit (extra :: below) =
            { extra with scope := Indent.scopeOf here.frames } :: here.repair unit below := by
        unfold Indent.Progress.repair
        rw [Indent.repairLines_of_not_isStatement _ _ _ noStatement, starts,
          if_neg fun moves => Bool.false_ne_true moves.1]
      rw [Indent.Progress.repair_append, Indent.Progress.repair_append, passed, ← length]
      exact .intro _ _ noCode stillClosed

end PaddedAt

namespace Reading

/-- Texts are read one stretch after another. -/
theorem lines_append
    (carry : Carry)
    (first second : List Text) :
    lines carry (first ++ second) = lines carry first ++ lines (carry.through first) second := by
  induction first generalizing carry with
  | nil =>
      rfl
  | cons text rest inductionHypothesis =>
      exact congrArg (_ :: ·) (inductionHypothesis _)

end Reading

namespace IndentUnit

/-- No statement starts on a line without code. -/
theorem openings_padded
    {above : List Text}
    (closed : Carry.neutral.through above = .neutral)
    {extra : Text}
    (noCode : extra.hasNoCode = true)
    (below : List Text) :
    openings (above ++ extra :: below) = openings (above ++ below) := by
  have empty := Scan.Empty.of_hasNoCode noCode
  unfold openings
  rw [Reading.lines_append, Reading.lines_append, closed, List.zip_append (by simp),
    List.zip_append (by simp), List.filterMap_append, List.filterMap_append]
  refine congrArg (_ ++ ·) ?_
  have closedStill :
      Carry.neutral.after (Scan.line Carry.neutral.openString extra) = .neutral :=
    empty.after_neutral
  have nothing :
      Opening.ofReading? extra
        ⟨.neutral, Scan.line Carry.neutral.openString extra, .neutral⟩ = none :=
    if_pos (Bool.or_eq_true_iff.mpr (.inr empty.code))
  rw [Reading.lines, closedStill, List.zip_cons_cons, List.filterMap_cons]
  dsimp only
  rw [nothing]

/-- The indentation unit is chosen without regard to a line without code. -/
theorem resolve_padded
    (style : Style)
    (width : Int)
    {above : List Text}
    (closed : Carry.neutral.through above = .neutral)
    {extra : Text}
    (noCode : extra.hasNoCode = true)
    (below : List Text) :
    resolve style width (above ++ extra :: below) = resolve style width (above ++ below) := by
  cases style with
  | tab | space =>
      rfl
  | detected =>
      unfold resolve detect
      rw [openings_padded closed noCode]

/-- A chosen unit is settled. -/
theorem resolve_settled
    (style : Style)
    (width : Int)
    (texts : List Text) :
    (resolve style width texts).isUnsettled = false := by
  cases style with
  | tab =>
      rfl
  | space =>
      have positive : (if width ≤ 0 then 4 else width) ≠ 0 := by
        split <;> omega
      simp [resolve, spaces, isUnsettled, positive]
  | detected =>
      exact detect_settled texts

end IndentUnit

/-- A line of which the text alone is known. -/
def Line.bare
    (text : Text) :
    Line :=
  { text := text }

/-- Texts with one more without code make lines with one more. -/
theorem PaddedAt.of_texts
    {above : List Text}
    (closed : Carry.neutral.through above = .neutral)
    {extra : Text}
    (noCode : extra.hasNoCode = true)
    (below : List Text) :
    PaddedAt above.length ((above ++ below).map Line.bare)
      ((above ++ extra :: below).map Line.bare) := by
  have bareTexts : (above.map Line.bare).map (·.text) = above := by
    rw [List.map_map]
    exact List.map_id' above
  have extraNoCode : (Line.bare extra).text.hasNoCode = true := noCode
  have padding := PaddedAt.intro (above.map Line.bare) (below.map Line.bare) extraNoCode
    (bareTexts.symm ▸ closed)
  rwa [List.length_map, ← List.map_append, ← List.map_cons, ← List.map_append] at padding

/-- A line without its place in the file it was read from. -/
def Line.unnumbered
    (line : Line) :
    Line :=
  { line with number := 0, source := [] }

theorem leadsBlock_unnumbered
    (carry : Carry)
    (lines : List Line) :
    leadsBlock carry (lines.map Line.unnumbered) = leadsBlock carry lines := by
  unfold leadsBlock
  apply statementOpens_congr
  rw [List.map_snd_zip (by simp), List.map_snd_zip (by simp), List.map_map]
  rfl

/-- The place of a line does not bear on how it is read. -/
theorem readLines_unnumbered
    (carry : Carry)
    (context : Context)
    (lines : List Line) :
    readLines carry context (lines.map Line.unnumbered) =
      (readLines carry context lines).map Line.unnumbered := by
  induction lines generalizing carry context with
  | nil =>
      rfl
  | cons line rest inductionHypothesis =>
      have opens := leadsBlock_unnumbered carry (line :: rest)
      rw [List.map_cons] at opens ⊢
      rw [readLines_cons, readLines_cons, opens, List.map_cons, ← inductionHypothesis]
      rfl

/-- The place of a line does not bear on how it is repaired. -/
theorem Indent.Progress.repair_unnumbered
    (progress : Progress)
    (unit : IndentUnit)
    (lines : List Line) :
    progress.repair unit (lines.map Line.unnumbered) =
      (progress.repair unit lines).map Line.unnumbered := by
  induction lines generalizing progress with
  | nil =>
      rfl
  | cons line rest inductionHypothesis =>
      have own : progress.repair unit [line.unnumbered] =
          (progress.repair unit [line]).map Line.unnumbered := by
        unfold repair
        cases statement : line.isStatement with
        | false =>
            have unnumbered : line.unnumbered.isStatement = false := statement
            rw [repairLines_of_not_isStatement _ _ _ unnumbered,
              repairLines_of_not_isStatement _ _ _ statement]
            rfl
        | true =>
            have unnumbered : line.unnumbered.isStatement = true := statement
            rw [repairLines_statement _ _ _ unnumbered, repairLines_statement _ _ _ statement]
            rfl
      rw [List.map_cons, repair_cons, repair_cons progress unit line, List.map_append,
        ← inductionHypothesis, own]
      rfl

namespace Source

/-- Without their numbers, the lines of a file that is read are its texts. -/
theorem numberLines_unnumbered
    (start : Nat)
    (texts : List Text) :
    (numberLines start texts).map Line.unnumbered = texts.map Line.bare := by
  induction texts generalizing start with
  | nil =>
      rfl
  | cons text rest inductionHypothesis =>
      exact congrArg (_ :: ·) (inductionHypothesis (start + 1))

/-- What classification and indentation repair make of a file, by its texts alone. -/
theorem unnumbered_indentStage_classifyStage
    (style : IndentUnit.Style)
    (width : Int)
    (path : String)
    (content : Text) :
    let texts := (ofContent path content).texts
    let unit := IndentUnit.resolve style width texts
    let after := ((ofContent path content).classifyStage style width).indentStage
    after.unit = unit ∧
      after.lines.map Line.unnumbered =
        refreshLines unit
          (Indent.Progress.repair ⟨[], 0⟩ unit
            (refreshLines unit (texts.map Line.bare))) := by
  intro texts unit after
  have consistent := classifyStage_consistent style width (ofContent path content)
  have sameUnit : ((ofContent path content).classifyStage style width).unit = unit :=
    if_neg (by simp [IndentUnit.resolve_settled])
  have classified : ((ofContent path content).classifyStage style width).lines =
      refreshLines unit (ofContent path content).lines :=
    congrArg (refreshLines · _) sameUnit
  have repaired := lines_indentStage consistent
  rw [sameUnit, classified] at repaired
  have bare : (ofContent path content).lines.map Line.unnumbered = texts.map Line.bare := by
    unfold texts Source.texts
    rw [ofContent_lines, texts_numberLines, numberLines_unnumbered]
  refine ⟨(unit_indentStage consistent).trans sameUnit, ?_⟩
  calc
    after.lines.map Line.unnumbered
      = (refreshLines unit (Indent.Progress.repair ⟨[], 0⟩ unit
          (refreshLines unit (ofContent path content).lines))).map Line.unnumbered :=
        congrArg (List.map _) repaired
    _ = refreshLines unit ((Indent.Progress.repair ⟨[], 0⟩ unit
          (refreshLines unit (ofContent path content).lines)).map Line.unnumbered) :=
        (readLines_unnumbered _ _ _).symm
    _ = refreshLines unit (Indent.Progress.repair ⟨[], 0⟩ unit
          ((refreshLines unit (ofContent path content).lines).map Line.unnumbered)) :=
        congrArg _ (Indent.Progress.repair_unnumbered _ _ _).symm
    _ = refreshLines unit (Indent.Progress.repair ⟨[], 0⟩ unit
          (refreshLines unit (texts.map Line.bare))) := by
        rw [← bare]
        exact congrArg (fun lines => refreshLines unit (Indent.Progress.repair ⟨[], 0⟩ unit lines))
          (readLines_unnumbered _ _ _).symm

/--
Whichever unit is asked for, one more comment or blank line in a file, at a
place where no bracket, backslash or multiline string is open, changes neither
the indentation unit nor anything that is known about any other line after
classification and indentation repair, but for the line numbers.
-/
theorem codeless_line_changes_no_other
    (style : IndentUnit.Style)
    (width : Int)
    (path : String)
    {content padded : Text}
    {above below : List Text}
    {extra : Text}
    (texts : (ofContent path content).texts = above ++ below)
    (paddedTexts : (ofContent path padded).texts = above ++ extra :: below)
    (noCode : extra.hasNoCode = true)
    (closed : Carry.neutral.through above = .neutral) :
    let after := ((ofContent path content).classifyStage style width).indentStage
    let paddedAfter := ((ofContent path padded).classifyStage style width).indentStage
    paddedAfter.unit = after.unit ∧
      (paddedAfter.lines.eraseIdx above.length).map Line.unnumbered =
        after.lines.map Line.unnumbered := by
  intro after paddedAfter
  obtain ⟨sameUnit, lines⟩ := unnumbered_indentStage_classifyStage style width path content
  obtain ⟨paddedUnit, paddedLines⟩ := unnumbered_indentStage_classifyStage style width path padded
  rw [texts] at sameUnit lines
  rw [paddedTexts, IndentUnit.resolve_padded style width closed noCode] at paddedUnit paddedLines
  refine ⟨paddedUnit.trans sameUnit.symm, ?_⟩
  have classified := (PaddedAt.of_texts closed noCode below).refreshLines
    (IndentUnit.resolve style width (above ++ below))
  have repaired := classified.repair (refreshLines_refreshLines _ _) ⟨[], 0⟩
  rw [← List.eraseIdx_map, lines, paddedLines]
  exact (repaired.refreshLines _).eraseIdx_eq

/-- A comment under a tab, right below a header, leaves a file with its two spaces. -/
theorem tabbed_comment_below_header_changes_nothing :
    let content := "func f():\n  if a:\n        pass\n".toList
    let padded := "func f():\n\t# first\n  if a:\n        pass\n".toList
    let above := ["func f():".toList]
    let below := ["  if a:".toList, "        pass".toList]
    let extra := "\t# first".toList
    let after := ((ofContent "x.gd" content).classifyStage .detected 4).indentStage
    let paddedAfter := ((ofContent "x.gd" padded).classifyStage .detected 4).indentStage
    (ofContent "x.gd" content).texts = above ++ below ∧
      (ofContent "x.gd" padded).texts = above ++ extra :: below ∧
      Text.hasNoCode extra = true ∧
      Carry.neutral.through above = .neutral ∧
      paddedAfter.unit = after.unit ∧
      (paddedAfter.lines.eraseIdx above.length).map Line.unnumbered =
        after.lines.map Line.unnumbered := by
  intro content padded above below extra after paddedAfter
  have texts : (ofContent "x.gd" content).texts = above ++ below := by
    decide +kernel
  have paddedTexts : (ofContent "x.gd" padded).texts = above ++ extra :: below := by
    decide +kernel
  have noCode : Text.hasNoCode extra = true := by
    decide +kernel
  have closed : Carry.neutral.through above = .neutral := by
    decide +kernel
  exact ⟨texts, paddedTexts, noCode, closed,
    codeless_line_changes_no_other .detected 4 "x.gd" texts paddedTexts noCode closed⟩

end Source

end ScriptUplift
