import Mathlib.Tactic.Common
import ScriptUplift.Proofs.CodeOnlyCheck
import ScriptUplift.Proofs.LexicalNeutrality
import ScriptUplift.Proofs.MatchingBrackets

namespace ScriptUplift

/-!
# Lines that are scanned in one run over the file

Lines are scanned one by one, and all that one of them hands to the next is the
multiline string it leaves open.  This is enough to read a file: a single run
over its text, which meets the line breaks as characters, tells the same about
every line.
-/

namespace Scanning

/--
What the scan is in the middle of behind a line break.  Multiline strings go on,
without the escape or the marks that stood at the end of the line; all else ends.
-/
def breakLine : Scanning → Scanning
  | .inside mark true | .escaped mark true | .behindMark mark true _ =>
      .inside mark true
  | .code | .comment | .inside _ false | .escaped _ false | .behindMark _ false _ =>
      .code

/-- A line break leaves of a scan what the end of a line hands on. -/
theorem breakLine_eq
    (scanning : Scanning) :
    scanning.breakLine = ofDelimiter scanning.openString := by
  rcases scanning with _ | _ | ⟨mark, triple | triple⟩ | ⟨mark, triple | triple⟩ |
    ⟨mark, triple | triple, twice | twice⟩ <;> rfl

/-- What the scan shows of a text: code as it is, and marks in place of strings and comments. -/
def mask : Scanning → Text → Text
  | _, [] =>
      []
  | scanning, character :: rest =>
      scanning.shown character :: mask (scanning.step character) rest

theorem step_hash_eq_comment_iff
    {scanning : Scanning}
    (proper : scanning.IsProper)
    (notComment : scanning ≠ .comment) :
    scanning.step '#' = .comment ↔ scanning.settle = .code := by
  have notMark {mark : Char} (quote : isQuoteMark mark = true) : '#' ≠ mark :=
    (ne_of_isQuoteMark quote rfl).symm
  cases scanning with
  | code =>
      exact iff_of_true rfl rfl
  | comment =>
      exact absurd rfl notComment
  | inside mark triple =>
      simp [step, stepInside, settle, notMark proper]
  | escaped mark triple =>
      simp [step, settle]
  | behindMark mark triple twice =>
      -- Only behind an empty string, which two marks open and close, is there code.
      cases triple <;> cases twice <;> simp [step, stepInside, stepInCode, settle, notMark proper]

/-- A comment begins where its mark is shown. -/
theorem shown_eq_hash_iff
    {scanning : Scanning}
    (proper : scanning.IsProper)
    (notComment : scanning ≠ .comment)
    (character : Char) :
    scanning.shown character = '#' ↔ scanning.step character = .comment := by
  constructor
  · intro isShown
    unfold shown at isShown
    split at isShown
    · rename_i visible
      subst isShown
      exact (step_hash_eq_comment_iff proper notComment).mpr visible.1
    · cases isShown
  · intro begins
    obtain rfl := eq_of_step_eq_comment notComment begins
    exact if_pos ⟨(step_hash_eq_comment_iff proper notComment).mp begins, rfl⟩

theorem bracketStep_of_step_eq_comment
    {scanning : Scanning}
    (notComment : scanning ≠ .comment)
    {character : Char}
    (begins : scanning.step character = .comment) :
    bracketStep (scanning.shown character) = 0 := by
  rw [eq_of_step_eq_comment notComment begins, shown]
  split <;> rfl

/-- Nothing is shown of a comment. -/
theorem shown_comment
    (character : Char) :
    Scanning.comment.shown character = '"' :=
  if_neg fun visible => Scanning.noConfusion visible.1

theorem bracketSurplus_mask_comment
    (text : Text) :
    bracketSurplus (Scanning.comment.mask text) = 0 := by
  induction text with
  | nil =>
      rfl
  | cons character rest inductionHypothesis =>
      rw [mask, bracketSurplus_cons, shown_comment]
      exact (Int.zero_add _).trans inductionHypothesis

end Scanning

/-! ## Summaries -/

/-- What a line has to tell about the statement it belongs to and about the lines below. -/
structure LineSummary where
  /-- The column at which the comment begins. -/
  commentStart : Option Nat
  /-- The change of bracket depth across the line. -/
  delta : Int
  /-- The delimiter of a multiline string left open at the end of the line. -/
  openString : Option Delimiter
  deriving Repr, DecidableEq

/-- The summary of a line that was scanned by itself. -/
def Scan.summary
    (scan : Scan) :
    LineSummary where
  commentStart := if scan.comment = [] then none else some scan.code.length
  delta := scan.delta
  openString := scan.openString

/-- A character of code in front of a scan moves the comment on by one column. -/
theorem Scan.commentStart_cons
    (character : Char)
    (step : Int)
    (rest : Scan) :
    (Scan.cons character step rest).summary.commentStart =
      rest.summary.commentStart.map (· + 1) := by
  unfold summary Scan.cons
  dsimp only
  split <;> rfl

/-- A run over the text of a file, with what it needs to know of the line it is in. -/
structure FileRun where
  /-- The lines that are finished. -/
  above : List LineSummary := []
  scanning : Scanning := .code
  column : Nat := 0
  commentStart : Option Nat := none
  delta : Int := 0
  deriving Repr, DecidableEq

namespace FileRun

/-- The summary of the line that a run is in, as far as the run has come. -/
def line
    (run : FileRun) :
    LineSummary where
  commentStart := run.commentStart
  delta := run.delta
  openString := run.scanning.openString

/-- One character more: a line break finishes the line, all else belongs to it. -/
def step
    (run : FileRun)
    (character : Char) :
    FileRun :=
  if character = '\n' then
    { above := run.above ++ [run.line]
      scanning := run.scanning.breakLine }
  else
    { above := run.above
      scanning := run.scanning.step character
      column := run.column + 1
      commentStart :=
        if run.scanning.step character = .comment then
          run.commentStart.or (some run.column)
        else
          run.commentStart
      delta := run.delta + bracketStep (run.scanning.shown character) }

/-- The summaries of all lines, the last one included. -/
def lines
    (run : FileRun) :
    List LineSummary :=
  run.above ++ [run.line]

/-- The lines of a text, told in one run over it. -/
def linesOf
    (text : Text) :
    List LineSummary :=
  (text.foldl step {}).lines

/-- A comment goes on to the end of its line and changes nothing. -/
theorem foldl_step_comment
    {run : FileRun}
    (inComment : run.scanning = .comment)
    {column : Nat}
    (began : run.commentStart = some column)
    {text : Text}
    (unbroken : '\n' ∉ text) :
    (text.foldl step run).above = run.above ∧
      (text.foldl step run).line = ⟨some column, run.delta, none⟩ := by
  induction text generalizing run with
  | nil =>
      simp [line, inComment, began, Scanning.openString, Scanning.settle]
  | cons character rest inductionHypothesis =>
      obtain ⟨noBreak, others⟩ := List.ne_and_not_mem_of_not_mem_cons unbroken
      have stepped : run.step character =
          { run with
            column := run.column + 1 } := by
        have flat : bracketStep '"' = 0 :=
          rfl
        rw [step, if_neg (Ne.symm noBreak), inComment, Scanning.shown_comment, flat, Int.add_zero,
          began]
        simp only [Scanning.step, if_true, Option.some_or]
      rw [List.foldl_cons, stepped]
      exact inductionHypothesis inComment began others

/-- A run over one line tells what the scan of the line tells. -/
theorem foldl_step_line
    {run : FileRun}
    (notComment : run.scanning ≠ .comment)
    (noneYet : run.commentStart = none)
    {text : Text}
    (unbroken : '\n' ∉ text) :
    (text.foldl step run).above = run.above ∧
      (text.foldl step run).line =
        { commentStart :=
            (run.scanning.scan text).summary.commentStart.map (run.column + ·)
          delta := run.delta + (run.scanning.scan text).delta
          openString := (run.scanning.scan text).openString } := by
  induction text generalizing run with
  | nil =>
      simp [line, noneYet, Scanning.scan, Scan.summary]
  | cons character rest inductionHypothesis =>
      obtain ⟨noBreak, others⟩ := List.ne_and_not_mem_of_not_mem_cons unbroken
      by_cases begins : run.scanning.step character = .comment
      · have flat := Scanning.bracketStep_of_step_eq_comment notComment begins
        have stepped : run.step character =
            { above := run.above
              scanning := .comment
              column := run.column + 1
              commentStart := some run.column
              delta := run.delta } := by
          rw [step, if_neg (Ne.symm noBreak), if_pos begins, begins, noneYet, flat, Int.add_zero]
          rfl
        rw [List.foldl_cons, stepped, Scanning.scan_of_comment begins]
        simpa [Scan.summary] using
          @foldl_step_comment ⟨run.above, .comment, run.column + 1, some run.column, run.delta⟩
            rfl _ rfl rest others
      · have stepped : run.step character =
            { above := run.above
              scanning := run.scanning.step character
              column := run.column + 1
              commentStart := none
              delta := run.delta + bracketStep (run.scanning.shown character) } := by
          rw [step, if_neg (Ne.symm noBreak), if_neg begins, noneYet]
        have stays : (run.step character).scanning ≠ .comment ∧
            (run.step character).commentStart = none := by
          rw [stepped]
          exact ⟨begins, rfl⟩
        obtain ⟨sameAbove, sameLine⟩ := inductionHypothesis stays.1 stays.2 others
        have columns : ((run.column + 1 + ·) : Nat → Nat) = (run.column + ·) ∘ (· + 1) := by
          funext column
          simp only [Function.comp_apply]
          omega
        rw [List.foldl_cons, sameAbove, sameLine, stepped, Scanning.scan_step rfl begins,
          Scan.commentStart_cons, Option.map_map, columns]
        exact ⟨rfl, congrArg (LineSummary.mk _ · _) (Int.add_assoc _ _ _)⟩

/-- A run that enters a line as the lines above left it tells the summary of the line. -/
theorem foldl_step_entered
    (above : List LineSummary)
    (quote : Option Delimiter)
    {text : Text}
    (unbroken : '\n' ∉ text) :
    let run : FileRun :=
      { above := above
        scanning := Scanning.ofDelimiter quote }
    (text.foldl step run).above = above ∧
      (text.foldl step run).line = (Scan.line quote text).summary := by
  intro run
  have notComment : run.scanning ≠ .comment := by
    cases quote <;> exact nofun
  obtain ⟨sameAbove, sameLine⟩ := foldl_step_line notComment (rfl : run.commentStart = none) unbroken
  refine ⟨sameAbove, sameLine.trans ?_⟩
  rw [Scanning.scan_eq]
  simp [run, Scan.summary]

/-- A run over lines that are joined tells what reading them one after another tells. -/
theorem lines_foldl_joinWith
    (above : List LineSummary)
    (carry : Carry)
    (first : Text)
    (others : List Text)
    (unbroken : ∀ line ∈ first :: others, '\n' ∉ line) :
    ((Text.joinWith ['\n'] (first :: others)).foldl step
        { above := above
          scanning := Scanning.ofDelimiter carry.openString }).lines =
      above ++ (Reading.lines carry (first :: others)).map (·.scan.summary) := by
  induction others generalizing above carry first with
  | nil =>
      obtain ⟨sameAbove, sameLine⟩ :=
        foldl_step_entered above carry.openString (unbroken first List.mem_cons_self)
      rw [Text.joinWith_singleton, lines, sameAbove, sameLine]
      rfl
  | cons second others inductionHypothesis =>
      obtain ⟨firstUnbroken, othersUnbroken⟩ := List.forall_mem_cons.mp unbroken
      obtain ⟨sameAbove, sameLine⟩ := foldl_step_entered above carry.openString firstUnbroken
      have openString := congrArg LineSummary.openString sameLine
      have broken : (first.foldl step
          { above := above
            scanning := Scanning.ofDelimiter carry.openString }).step '\n' =
          { above := above ++ [(Scan.line carry.openString first).summary]
            scanning := Scanning.ofDelimiter
              (carry.after (Scan.line carry.openString first)).openString } := by
        rw [step, if_pos rfl, sameAbove, sameLine, Scanning.breakLine_eq]
        exact congrArg (fun quote => FileRun.mk _ (Scanning.ofDelimiter quote) 0 none 0) openString
      rw [Text.joinWith_cons_cons, List.foldl_append, List.singleton_append, List.foldl_cons, broken,
        inductionHypothesis _ _ second othersUnbroken, List.append_assoc]
      rfl

end FileRun

/-! ## Readings -/

/-- Each line of a file is read as a line that begins in what the line above left open. -/
theorem Reading.exists_of_getElem?
    {carry : Carry}
    (proper : (Scanning.ofDelimiter carry.openString).IsProper)
    {lines : List Text}
    {index : Nat}
    {line : Text}
    (isLine : lines[index]? = some line) :
    ∃ reading, (Reading.lines carry lines)[index]? = some reading ∧
      reading.scan = Scan.line reading.before.openString line ∧
      (Scanning.ofDelimiter reading.before.openString).IsProper := by
  induction lines generalizing carry index with
  | nil =>
      cases isLine
  | cons first others inductionHypothesis =>
      cases index with
      | zero =>
          obtain rfl := Option.some.inj isLine
          exact ⟨_, rfl, rfl, proper⟩
      | succ index =>
          have leaves : (Scanning.ofDelimiter
              (carry.after (Scan.line carry.openString first)).openString).IsProper := by
            rw [Carry.after, Scanning.scan_eq]
            exact Scanning.isProper_openString_scan proper first
          exact inductionHypothesis leaves isLine

namespace Scanning

/-- The comment of a line begins at the first of its marks that is shown. -/
theorem idxOf?_mask
    {scanning : Scanning}
    (proper : scanning.IsProper)
    (notComment : scanning ≠ .comment)
    (text : Text) :
    (scanning.mask text).idxOf? '#' = (scanning.scan text).summary.commentStart := by
  induction text generalizing scanning with
  | nil =>
      rfl
  | cons character rest inductionHypothesis =>
      have isFirst := shown_eq_hash_iff proper notComment character
      rw [mask, List.idxOf?_cons]
      by_cases begins : scanning.step character = .comment
      · rw [isFirst.mpr begins, scan_of_comment begins]
        rfl
      · have notHash : (scanning.shown character == '#') = false :=
          beq_eq_false_iff_ne.mpr fun isHash => begins (isFirst.mp isHash)
        rw [notHash, scan_step rfl begins, Scan.commentStart_cons,
          inductionHypothesis (proper.step character) begins]
        rfl

/-- The depth of a line changes by the brackets that are shown of it. -/
theorem delta_eq_bracketSurplus_mask
    {scanning : Scanning}
    (notComment : scanning ≠ .comment)
    (text : Text) :
    (scanning.scan text).delta = bracketSurplus (scanning.mask text) := by
  induction text generalizing scanning with
  | nil =>
      rfl
  | cons character rest inductionHypothesis =>
      rw [mask, bracketSurplus_cons]
      by_cases begins : scanning.step character = .comment
      · rw [scan_of_comment begins, bracketStep_of_step_eq_comment notComment begins, begins,
          bracketSurplus_mask_comment]
        rfl
      · rw [scan_step rfl begins, ← inductionHypothesis begins]
        rfl

end Scanning

/--
What a line of a file is read as, next to a single run over the joined lines and
to the line itself.
-/
structure Reading.ToldInOneRun
    (lines : List Text)
    (index : Nat)
    (line : Text)
    (reading : Reading) :
    Prop where
  /-- The run tells the same comment, change of depth and open string. -/
  summary : (FileRun.linesOf (Text.joinWith ['\n'] lines))[index]? = some reading.scan.summary
  /-- The scan loses nothing. -/
  parts : reading.scan.code ++ reading.scan.comment = line
  /-- The comment begins at the first mark that stands outside of strings, if there is one. -/
  comment : reading.scan.summary.commentStart =
    ((Scanning.ofDelimiter reading.before.openString).mask line).idxOf? '#'
  /-- Brackets count outside of strings and comments. -/
  delta : reading.scan.delta =
    (((Scanning.ofDelimiter reading.before.openString).mask line).countP isOpeningBracket : Int) -
      ((Scanning.ofDelimiter reading.before.openString).mask line).countP isClosingBracket

/--
Lines that are scanned one by one, each from the multiline string the one above
left open, are read as in a single run over the joined text.  There multiline
strings reach over line breaks, other strings and comments end at them, and an
escape protects the next character of its line.  Of each line nothing is lost,
its comment begins at the first mark outside of strings, and its change of depth
is what its brackets outside of strings and comments make of it.
-/
theorem lines_are_scanned_in_one_run
    {lines : List Text}
    (unbroken : ∀ line ∈ lines, '\n' ∉ line)
    {index : Nat}
    {line : Text}
    (isLine : lines[index]? = some line) :
    ∃ reading, (Reading.lines .neutral lines)[index]? = some reading ∧
      reading.ToldInOneRun lines index line := by
  have start : (Scanning.ofDelimiter Carry.neutral.openString).IsProper :=
    trivial
  obtain ⟨reading, isReading, scanned, proper⟩ := Reading.exists_of_getElem? start isLine
  have notComment : Scanning.ofDelimiter reading.before.openString ≠ .comment := by
    cases reading.before.openString <;> exact nofun
  have wholeFile : FileRun.linesOf (Text.joinWith ['\n'] lines) =
      (Reading.lines .neutral lines).map (·.scan.summary) := by
    cases lines with
    | nil =>
        cases isLine
    | cons first others =>
        exact FileRun.lines_foldl_joinWith [] .neutral first others unbroken
  refine ⟨reading, isReading, ?_, ?_, ?_, ?_⟩
  · rw [wholeFile, List.getElem?_map, isReading]
    rfl
  · rw [scanned, Scan.code_append_comment]
  · rw [scanned, Scanning.scan_eq]
    exact (Scanning.idxOf?_mask proper notComment line).symm
  · rw [scanned, Scanning.scan_eq]
    exact Scanning.delta_eq_bracketSurplus_mask notComment line

/-- Lines with a multiline string that ends in the second one, and an escape before the break. -/
def linesAcrossString : List Text :=
  ["var s = \"\"\"a # (\\".toList,
    "\" \\\"\"# c\"\"\" + [f( # '''".toList,
    "'#\\'(')]".toList]

theorem line_behind_open_string_is_scanned_in_one_run :
    (∀ line ∈ linesAcrossString, '\n' ∉ line) ∧
      linesAcrossString[1]? = some "\" \\\"\"# c\"\"\" + [f( # '''".toList ∧
      ∃ reading, (Reading.lines .neutral linesAcrossString)[1]? = some reading ∧
        reading.ToldInOneRun linesAcrossString 1 "\" \\\"\"# c\"\"\" + [f( # '''".toList ∧
        reading.scan.summary = ⟨some 18, 2, none⟩ := by
  have unbroken : ∀ line ∈ linesAcrossString, '\n' ∉ line := by
    decide
  have isLine : linesAcrossString[1]? = some "\" \\\"\"# c\"\"\" + [f( # '''".toList := by
    decide
  have run : FileRun.linesOf (Text.joinWith ['\n'] linesAcrossString) =
      [⟨none, 0, some ⟨'"', true⟩⟩, ⟨some 18, 2, none⟩, ⟨none, -2, none⟩] := by
    decide
  obtain ⟨reading, isReading, told⟩ := lines_are_scanned_in_one_run unbroken isLine
  have summary := told.summary
  rw [run] at summary
  exact ⟨unbroken, isLine, reading, isReading, told, (Option.some.inj summary).symm⟩

end ScriptUplift
