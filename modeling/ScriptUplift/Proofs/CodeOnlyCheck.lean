import Mathlib.Tactic.Common
import ScriptUplift.Proofs.StringLiterals
import ScriptUplift.Proofs.VeiledCode

namespace ScriptUplift

/-!
# What the legacy check does not read

Two files are compared that differ in nothing but the text of comments and the
ordinary characters of string literals, as the scan of their lines reads them.
The scan hands the same open string on from each line to the next, so that the
files stay alike.  The search for words starts every line outside of strings
and knows no multiline ones; the check finds the same in both files as long as
the search, too, meets the differences in strings only.
-/

namespace Scanning

/-- Whether the scan is inside of a string literal. -/
def isInside
    (scanning : Scanning) :
    Bool :=
  match scanning.settle with
  | .inside _ _ =>
      true
  | _ =>
      false

/--
Whether two texts are the same but for their comments and for ordinary
characters in string literals.
-/
def alike : Scanning → Text → Text → Bool
  | _, [], [] =>
      true
  | scanning, first :: rest, second :: others =>
      if scanning.step first = .comment then
        scanning.step second == .comment
      else
        (first == second || scanning.isInside && isOrdinary first && isOrdinary second) &&
          alike (scanning.step first) rest others
  | _, _, _ =>
      false

/-- In a string an ordinary character means nothing to the scan. -/
theorem step_of_isInside
    {scanning : Scanning}
    (proper : scanning.IsProper)
    (inside : scanning.isInside = true)
    {character : Char}
    (ordinary : isOrdinary character = true) :
    scanning.step character = scanning.settle := by
  obtain ⟨noQuote, notEscape⟩ := isOrdinary_iff.mp ordinary
  have inString {mark : Char} (quote : isQuoteMark mark = true) (triple : Bool) :
      character ≠ mark ∧ stepInside mark triple character = .inside mark triple := by
    have notMark : character ≠ mark := by
      rintro rfl
      rw [quote] at noQuote
      cases noQuote
    exact ⟨notMark, by simp [stepInside, notEscape, notMark]⟩
  rcases scanning with _ | _ | ⟨mark, triple⟩ | _ | ⟨mark, triple | triple, twice | twice⟩
  · cases inside
  · cases inside
  · exact (inString proper triple).2
  · rfl
  · rw [step, if_neg (inString proper false).1, (inString proper false).2]
    rfl
  · cases inside
  · rw [step, if_neg (inString proper true).1, (inString proper true).2]
    rfl
  · rw [step, if_neg (inString proper true).1, (inString proper true).2]
    rfl

theorem settle_ne_code_of_isInside
    {scanning : Scanning}
    (inside : scanning.isInside = true) :
    scanning.settle ≠ .code := by
  intro settled
  simp [isInside, settled] at inside

/-- Alike texts begin with comments, or with characters that take the scan to the same state. -/
theorem alike_cons
    {scanning : Scanning}
    (proper : scanning.IsProper)
    {first second : Char}
    {rest others : Text}
    (alike : scanning.alike (first :: rest) (second :: others) = true) :
    (scanning.step first = .comment ∧ scanning.step second = .comment) ∨
      scanning.step first ≠ .comment ∧ scanning.step second = scanning.step first ∧
        (first = second ∨
          scanning.isInside = true ∧ isOrdinary first = true ∧ isOrdinary second = true) ∧
        (scanning.step first).alike rest others = true := by
  unfold Scanning.alike at alike
  split at alike
  · rename_i comment
    exact .inl ⟨comment, beq_iff_eq.mp alike⟩
  · rename_i notComment
    obtain ⟨head, below⟩ := Bool.and_eq_true_iff.mp alike
    by_cases same : first = second
    · subst same
      exact .inr ⟨notComment, rfl, .inl rfl, below⟩
    · simp only [beq_eq_false_iff_ne.mpr same, Bool.false_or, Bool.and_eq_true] at head
      obtain ⟨⟨inside, firstOrdinary⟩, secondOrdinary⟩ := head
      refine .inr ⟨notComment, ?_, .inr ⟨inside, firstOrdinary, secondOrdinary⟩, below⟩
      rw [step_of_isInside proper inside firstOrdinary,
        step_of_isInside proper inside secondOrdinary]

theorem scan_of_comment
    {scanning : Scanning}
    {character : Char}
    (comment : scanning.step character = .comment)
    (rest : Text) :
    scanning.scan (character :: rest) = ⟨[], character :: rest, 0, none⟩ := by
  rw [scan, if_pos comment]

/-- Alike texts leave the same string open. -/
theorem openString_scan_eq
    {scanning : Scanning}
    (proper : scanning.IsProper)
    {text other : Text}
    (alike : scanning.alike text other = true) :
    (scanning.scan text).openString = (scanning.scan other).openString := by
  induction text generalizing scanning other with
  | nil =>
      cases other with
      | nil =>
          rfl
      | cons second others =>
          cases alike
  | cons first rest inductionHypothesis =>
      cases other with
      | nil =>
          cases alike
      | cons second others =>
          rcases alike_cons proper alike with ⟨comment, otherComment⟩ |
            ⟨notComment, sameStep, _, below⟩
          · rw [scan_of_comment comment, scan_of_comment otherComment]
          · rw [scan_step rfl notComment, scan_step sameStep notComment]
            exact inductionHypothesis (proper.step first) below

/-- A string that is left open has quotation marks. -/
theorem isProper_openString_scan
    {scanning : Scanning}
    (proper : scanning.IsProper)
    (text : Text) :
    (ofDelimiter (scanning.scan text).openString).IsProper := by
  induction text generalizing scanning with
  | nil =>
      have settled := proper.settle
      rw [scan, openString]
      split
      · rename_i mark isOpen
        rw [isOpen] at settled
        exact settled
      · trivial
  | cons character rest inductionHypothesis =>
      by_cases comment : scanning.step character = .comment
      · rw [scan_of_comment comment]
        trivial
      · rw [scan_step rfl comment]
        exact inductionHypothesis (proper.step character)

/--
Where no mark stands alone in a string with three of its kind, the search for
words meets what alike texts differ in inside of strings.
-/
theorem hides_code_of_pairsMarks
    {scanning : Scanning}
    (proper : scanning.IsProper)
    {text other : Text}
    (pairs : scanning.pairsMarks text = true)
    (alike : scanning.alike text other = true) :
    scanning.quoting.hides (scanning.scan text).code (scanning.scan other).code = true := by
  induction text generalizing scanning other with
  | nil =>
      cases other with
      | nil =>
          rfl
      | cons second others =>
          cases alike
  | cons first rest inductionHypothesis =>
      cases other with
      | nil =>
          cases alike
      | cons second others =>
          obtain ⟨pair, pairsBelow⟩ := Bool.and_eq_true_iff.mp pairs
          rcases alike_cons proper alike with ⟨comment, otherComment⟩ |
            ⟨notComment, sameStep, head, below⟩
          · rw [scan_of_comment comment, scan_of_comment otherComment]
            rfl
          · have later := inductionHypothesis (proper.step first) pairsBelow below
            rw [quoting_step proper pair notComment] at later
            rw [scan_step rfl notComment, scan_step sameStep notComment]
            refine Bool.and_eq_true_iff.mpr ⟨?_, later⟩
            rcases head with rfl | ⟨inside, firstOrdinary, secondOrdinary⟩
            · simp
            · -- Outside of strings for the search is in code for the scan, as the marks pair.
              have notOutside : scanning.quoting ≠ .outside := by
                intro outside
                have noQuote := (isOrdinary_iff.mp firstOrdinary).1
                have inCode := settle_of_outside proper pair notComment noQuote outside
                exact settle_ne_code_of_isInside inside inCode
              simp [notOutside, firstOrdinary, secondOrdinary]

end Scanning

namespace Legacy

/--
Whether two lists of lines, the first of which begins inside the given string,
differ only in comments and in ordinary characters of string literals.
-/
def alike : Option Delimiter → List Text → List Text → Bool
  | _, [], [] =>
      true
  | quote, text :: rest, other :: others =>
      (Scanning.ofDelimiter quote).alike text other &&
        alike (Scan.line quote text).openString rest others
  | _, _, _ =>
      false

/--
Whether the search for words meets the differences between two lines inside of
strings only.  It does when the lines begin in code and no mark stands alone in
a string with three of its kind.
-/
def hidesInLine
    (quote : Option Delimiter)
    (text other : Text) :
    Bool :=
  quote.isNone && Scanning.code.pairsMarks text ||
    Quoting.outside.hides (Scan.line quote text).code (Scan.line quote other).code

/-- Whether the search meets the differences in strings only, on every line that is checked. -/
def hides : Option Delimiter → List Text → List Text → List Category → Bool
  | quote, text :: rest, other :: others, categories =>
      (categories.head?.any (·.isTrivia) || hidesInLine quote text other) &&
        hides (Scan.line quote text).openString rest others categories.tail
  | _, _, _, _ =>
      true

/-- The same is found in two lines that differ only in what is not read. -/
theorem codeFindings_line_eq
    {quote : Option Delimiter}
    (proper : (Scanning.ofDelimiter quote).IsProper)
    {text other : Text}
    (same : (Scanning.ofDelimiter quote).alike text other = true)
    (hidden : hidesInLine quote text other = true) :
    codeFindings (Scan.line quote text).code.trim =
      codeFindings (Scan.line quote other).code.trim := by
  have start : Quoting.outside.IsProper :=
    trivial
  have hiddenCode :
      Quoting.outside.hides (Scan.line quote text).code (Scan.line quote other).code = true := by
    rcases Bool.or_eq_true_iff.mp hidden with legible | hiddenCode
    · obtain ⟨inCode, pairs⟩ := Bool.and_eq_true_iff.mp legible
      obtain rfl := Option.isNone_iff_eq_none.mp inCode
      rw [Scanning.scan_eq, Scanning.scan_eq]
      exact Scanning.hides_code_of_pairsMarks proper pairs same
    · exact hiddenCode
  exact codeFindings_eq (Quoting.veiled_of_hides start hiddenCode).trim

/-- Lists of lines that differ only in what is not read have the same findings. -/
theorem checkFrom_eq
    (file : String)
    (number : Nat)
    {quote : Option Delimiter}
    (proper : (Scanning.ofDelimiter quote).IsProper)
    {lines others : List Text}
    {categories : List Category}
    (same : alike quote lines others = true)
    (hidden : hides quote lines others categories = true) :
    checkFrom file number quote lines categories =
      checkFrom file number quote others categories := by
  induction lines generalizing number quote others categories with
  | nil =>
      cases others with
      | nil =>
          rfl
      | cons other others =>
          cases same
  | cons text rest inductionHypothesis =>
      cases others with
      | nil =>
          cases same
      | cons other others =>
          obtain ⟨sameLine, sameRest⟩ := Bool.and_eq_true_iff.mp same
          obtain ⟨hiddenLine, hiddenRest⟩ := Bool.and_eq_true_iff.mp hidden
          have sameOpen :
              (Scan.line quote text).openString = (Scan.line quote other).openString := by
            rw [Scanning.scan_eq, Scanning.scan_eq]
            exact Scanning.openString_scan_eq proper sameLine
          have properBelow : (Scanning.ofDelimiter (Scan.line quote text).openString).IsProper := by
            rw [Scanning.scan_eq]
            exact Scanning.isProper_openString_scan proper text
          have below := inductionHypothesis (number + 1) properBelow sameRest hiddenRest
          -- The categories are the same, so that both lines are checked or none is.
          have own : (if categories.head?.any (·.isTrivia) then []
                else (codeFindings (Scan.line quote text).code.trim).map (record file number)) =
              if categories.head?.any (·.isTrivia) then []
                else (codeFindings (Scan.line quote other).code.trim).map (record file number) := by
            split
            · rfl
            · rename_i checked
              rw [codeFindings_line_eq proper sameLine
                ((Bool.or_eq_true_iff.mp hiddenLine).resolve_left checked)]
          rw [checkFrom, checkFrom, own, below, sameOpen]

/--
The legacy check finds the same in two files that differ only in comments and
in ordinary characters of string literals, where the search for words reads
these characters as parts of strings too.
-/
theorem check_reads_code_only
    (file : String)
    {lines others : List Text}
    {categories : List Category}
    (same : alike none lines others = true)
    (hidden : hides none lines others categories = true) :
    check file lines categories = check file others categories := by
  have start : (Scanning.ofDelimiter none).IsProper :=
    trivial
  exact checkFrom_eq file 1 start same hidden

/-- A connection by name, with a comment, and a multiline string that quotes a call. -/
def connectingLines : List Text :=
  ["button.connect(\"pressed\", self) # yield()".toList,
   "var text = '''".toList,
   "say \"yield()\" twice".toList,
   "'''".toList]

/-- The same with another name, another comment, and other words in the quotation. -/
def otherConnectingLines : List Text :=
  ["button.connect(\"toggled\", self) # none".toList,
   "var text = '''".toList,
   "say \"setget \" twice".toList,
   "'''".toList]

/-- The connection is flagged under both names, and nothing in the string is. -/
theorem check_of_connectingLines :
    let categories : List Category := [.other, .publicField, .other, .other]
    alike none connectingLines otherConnectingLines = true ∧
      hides none connectingLines otherConnectingLines categories = true ∧
      check "a.gd" connectingLines categories = check "a.gd" otherConnectingLines categories ∧
      (check "a.gd" otherConnectingLines categories).map (·.line) = [1] := by
  intro categories
  have same : alike none connectingLines otherConnectingLines = true := by
    decide +kernel
  have hidden : hides none connectingLines otherConnectingLines categories = true := by
    decide +kernel
  have flagged : (check "a.gd" otherConnectingLines categories).map (·.line) = [1] := by
    decide +kernel
  exact ⟨same, hidden, check_reads_code_only "a.gd" same hidden, flagged⟩

/-- A multiline string with a line that looks like a call. -/
def callInText : List Text :=
  ["var text = \"\"\"".toList, "yield()".toList, "\"\"\"".toList]

/-- The same string with another word. -/
def wordInText : List Text :=
  ["var text = \"\"\"".toList, "plain()".toList, "\"\"\"".toList]

/-- A line that stands in a multiline string is read as code. -/
theorem multiline_string_is_read :
    alike none callInText wordInText = true ∧
      check "a.gd" callInText [.publicField, .other, .other] =
        [record "a.gd" 2 ("legacy_yield", "yield could not be translated to await")] ∧
      check "a.gd" wordInText [.publicField, .other, .other] = [] := by
  decide +kernel

end Legacy

end ScriptUplift
