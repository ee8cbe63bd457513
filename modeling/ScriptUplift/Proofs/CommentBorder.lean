import Mathlib.Data.List.Basic
import Mathlib.Data.List.DropRight
import Mathlib.Tactic.Common
import ScriptUplift.Proofs.BuiltCalls

namespace ScriptUplift

/-!
# Where the comment of a line begins

The scan of a line, which looks ahead for the delimiters of multiline strings,
is followed here one character at a time.  A call and the newer form of it take
the scan from the same state to the same state, so that replacing the one by the
other leaves the border between code and comment where it was.
-/

/-- What the scan of a line is in the middle of. -/
inductive Scanning
  | code
  | comment
  | inside (mark : Char) (triple : Bool)
  /-- Inside, right after a backslash. -/
  | escaped (mark : Char) (triple : Bool)
  /--
  Behind one mark or two that open a string, or that may close a multiline one:
  three of them make the delimiter of a multiline string.
  -/
  | behindMark (mark : Char) (triple twice : Bool)
  deriving Repr, DecidableEq

namespace Scanning

/-- What the scan is in the middle of after one more character of code. -/
def stepInCode
    (character : Char) :
    Scanning :=
  if character = '#' then .comment
  else if isQuoteMark character then .behindMark character false false
  else .code

/-- What the scan is in the middle of after one more character of a string. -/
def stepInside
    (mark : Char)
    (triple : Bool)
    (character : Char) :
    Scanning :=
  if character = '\\' then .escaped mark triple
  else if character = mark then
    if triple then .behindMark mark true false else .code
  else .inside mark triple

/-- What the scan is in the middle of after one more character. -/
def step : Scanning → Char → Scanning
  | .code, character =>
      stepInCode character
  | .comment, _ =>
      .comment
  | .inside mark triple, character =>
      stepInside mark triple character
  | .escaped mark triple, _ =>
      .inside mark triple
  | .behindMark mark triple false, character =>
      if character = mark then .behindMark mark triple true else stepInside mark triple character
  | .behindMark mark false true, character =>
      if character = mark then .inside mark true else stepInCode character
  | .behindMark mark true true, character =>
      if character = mark then .code else stepInside mark true character

/-- What the scan is in the middle of after a text. -/
def through
    (scanning : Scanning)
    (text : Text) :
    Scanning :=
  text.foldl step scanning

@[simp] theorem through_nil
    (scanning : Scanning) :
    scanning.through [] = scanning :=
  rfl

@[simp] theorem through_cons
    (scanning : Scanning)
    (character : Char)
    (rest : Text) :
    scanning.through (character :: rest) = (scanning.step character).through rest :=
  rfl

@[simp] theorem through_append
    (scanning : Scanning)
    (first second : Text) :
    scanning.through (first ++ second) = (scanning.through first).through second :=
  List.foldl_append

/-- The comment of a text that is scanned on. -/
def commentOf : Scanning → Text → Text
  | _, [] =>
      []
  | scanning, character :: rest =>
      if scanning.step character = .comment then character :: rest
      else commentOf (scanning.step character) rest

/-- What the scan is in the middle of where a string is open or not. -/
def ofDelimiter : Option Delimiter → Scanning
  | none =>
      .code
  | some delimiter =>
      .inside delimiter.mark delimiter.triple

theorem commentOf_step
    {scanning next : Scanning}
    {character : Char}
    (stepped : scanning.step character = next)
    (notComment : next ≠ .comment)
    (rest : Text) :
    commentOf scanning (character :: rest) = commentOf next rest := by
  rw [commentOf, stepped, if_neg notComment]

/-- What the scan is in the middle of after a character that means nothing to it. -/
def settle : Scanning → Scanning
  | .code | .behindMark _ false true =>
      .code
  | .comment =>
      .comment
  | .inside mark triple | .escaped mark triple | .behindMark mark triple false =>
      .inside mark triple
  | .behindMark mark true true =>
      .inside mark true

/-- What the scan shows of a character: itself in code, and a mark in a string. -/
def shown
    (scanning : Scanning)
    (character : Char) :
    Char :=
  if scanning.settle = .code ∧ isQuoteMark character = false then character else '"'

/-- The multiline string that a line leaves open when it ends here. -/
def openString
    (scanning : Scanning) :
    Option Delimiter :=
  match scanning.settle with
  | .inside mark true =>
      some ⟨mark, true⟩
  | _ =>
      none

/-- The scan of a text that is read by characters. -/
def scan : Scanning → Text → Scan
  | scanning, [] =>
      ⟨[], [], 0, scanning.openString⟩
  | scanning, character :: rest =>
      if scanning.step character = .comment then
        ⟨[], character :: rest, 0, none⟩
      else
        Scan.cons character (bracketStep (scanning.shown character))
          (scan (scanning.step character) rest)

theorem scan_step
    {scanning next : Scanning}
    {character : Char}
    (stepped : scanning.step character = next)
    (notComment : next ≠ .comment)
    (rest : Text) :
    scan scanning (character :: rest) =
      Scan.cons character (bracketStep (scanning.shown character)) (scan next rest) := by
  rw [scan, stepped, if_neg notComment]

/-- In a string, and at its marks, no brackets are counted. -/
theorem scan_hidden
    {scanning next : Scanning}
    {character : Char}
    (hidden : scanning.settle ≠ .code ∨ isQuoteMark character = true)
    (stepped : scanning.step character = next)
    (notComment : next ≠ .comment)
    (rest : Text) :
    scan scanning (character :: rest) = Scan.cons character 0 (scan next rest) := by
  have isHidden : scanning.shown character = '"' := by
    refine if_neg ?_
    rintro ⟨inCode, noQuote⟩
    rcases hidden with inString | quote
    · exact inString inCode
    · rw [quote] at noQuote
      cases noQuote
  rw [scan_step stepped notComment, isHidden]
  rfl

/-- Marks that are not three stand in the string, or close it, as single marks. -/
theorem scan_behindMark
    {mark : Char}
    (notEscape : mark ≠ '\\')
    (triple : Bool)
    {rest : Text}
    (fewer : ∀ tail, rest ≠ mark :: mark :: tail) :
    scan (.behindMark mark triple false) rest = scan (.inside mark triple) rest := by
  have sameSettle : (Scanning.behindMark mark triple false).settle =
      (Scanning.inside mark triple).settle := by
    cases triple <;> rfl
  cases rest with
  | nil =>
      simp [scan, openString, sameSettle]
  | cons second rest =>
      have once : (Scanning.behindMark mark triple false).step second =
          if second = mark then .behindMark mark triple true else stepInside mark triple second :=
        rfl
      have within : (Scanning.inside mark triple).step second = stepInside mark triple second :=
        rfl
      have sameShown : (Scanning.behindMark mark triple false).shown second =
          (Scanning.inside mark triple).shown second := by
        simp [shown, sameSettle]
      by_cases same : second = mark
      · subst same
        have closes : stepInside second triple second =
            if triple then .behindMark second true false else .code := by
          simp [stepInside, notEscape]
        cases rest with
        | nil =>
            cases triple <;> simp [scan, once, within, closes, sameShown, openString, settle]
        | cons third tail =>
            have other : third ≠ second := by
              rintro rfl
              exact fewer tail rfl
            cases triple <;> simp [scan, closes, step, shown, settle, other]
      · simp [scan, once, within, sameShown, same]

theorem step_quote
    {mark : Char}
    (quote : isQuoteMark mark = true) :
    Scanning.code.step mark = .behindMark mark false false := by
  have notComment : mark ≠ '#' := ne_of_isQuoteMark quote rfl
  simp [step, stepInCode, notComment, quote]

/-- A mark by itself opens a string. -/
theorem scan_opens
    {mark : Char}
    (quote : isQuoteMark mark = true)
    {rest : Text}
    (fewer : ∀ tail, rest ≠ mark :: mark :: tail) :
    scan .code (mark :: rest) = Scan.cons mark 0 (scan (.inside mark false) rest) := by
  rw [scan_hidden (.inr quote) (step_quote quote) (by simp),
    scan_behindMark (ne_of_isQuoteMark quote rfl) false fewer]

/-- Three marks open a multiline string. -/
theorem scan_opens_three
    {mark : Char}
    (quote : isQuoteMark mark = true)
    (rest : Text) :
    scan .code (mark :: mark :: mark :: rest) =
      Scan.cons mark 0 (Scan.cons mark 0 (Scan.cons mark 0 (scan (.inside mark true) rest))) := by
  have second : (Scanning.behindMark mark false false).step mark = .behindMark mark false true := by
    simp [step]
  have third : (Scanning.behindMark mark false true).step mark = .inside mark true := by
    simp [step]
  rw [scan_hidden (.inr quote) (step_quote quote) (by simp),
    scan_hidden (.inr quote) second (by simp), scan_hidden (.inr quote) third (by simp)]

/-- In a string no brackets are counted. -/
theorem scan_inside
    {mark character : Char}
    {triple : Bool}
    {next : Scanning}
    (stepped : stepInside mark triple character = next)
    (notComment : next ≠ .comment)
    (rest : Text) :
    scan (.inside mark triple) (character :: rest) = Scan.cons character 0 (scan next rest) := by
  have stepped : (Scanning.inside mark triple).step character = next := stepped
  exact scan_hidden (.inl (by simp [settle])) stepped notComment rest

/-- In a multiline string a mark by itself is text. -/
theorem scan_inside_mark
    {mark : Char}
    (notEscape : mark ≠ '\\')
    {rest : Text}
    (fewer : ∀ tail, rest ≠ mark :: mark :: tail) :
    scan (.inside mark true) (mark :: rest) =
      Scan.cons mark 0 (scan (.inside mark true) rest) := by
  have stepped : stepInside mark true mark = .behindMark mark true false := by
    simp [stepInside, notEscape]
  rw [scan_inside stepped (by simp), scan_behindMark notEscape true fewer]

/-- Three marks close a multiline string. -/
theorem scan_closes_three
    {mark : Char}
    (notEscape : mark ≠ '\\')
    (rest : Text) :
    scan (.inside mark true) (mark :: mark :: mark :: rest) =
      Scan.cons mark 0 (Scan.cons mark 0 (Scan.cons mark 0 (scan .code rest))) := by
  have first : stepInside mark true mark = .behindMark mark true false := by
    simp [stepInside, notEscape]
  have second : (Scanning.behindMark mark true false).step mark = .behindMark mark true true := by
    simp [step]
  have third : (Scanning.behindMark mark true true).step mark = .code := by
    simp [step]
  rw [scan_inside first (by simp), scan_hidden (.inl (by simp [settle])) second (by simp),
    scan_hidden (.inl (by simp [settle])) third (by simp)]

theorem scan_escape
    (mark : Char)
    (triple : Bool)
    (rest : Text) :
    scan (.inside mark triple) ('\\' :: rest) =
      Scan.cons '\\' 0 (scan (.escaped mark triple) rest) :=
  scan_inside (by simp [stepInside]) (by simp) rest

theorem scan_escaped
    (mark character : Char)
    (triple : Bool)
    (rest : Text) :
    scan (.escaped mark triple) (character :: rest) =
      Scan.cons character 0 (scan (.inside mark triple) rest) :=
  scan_hidden (.inl (by simp [settle])) rfl (by simp [step]) rest

/-- What the scan of a line finds not to be three marks is fewer than three. -/
theorem fewer_of_not_three
    {mark second third : Char}
    {tail : Text}
    (notThree : ¬(second = mark ∧ third = mark))
    (other : Text) :
    second :: third :: tail ≠ mark :: mark :: other := by
  intro same
  obtain ⟨rfl, below⟩ := List.cons.inj same
  exact notThree ⟨rfl, (List.cons.inj below).1⟩

/-- The scan of a line is the scan by characters. -/
theorem scan_eq
    (quote : Option Delimiter)
    (text : Text) :
    Scan.line quote text = scan (ofDelimiter quote) text := by
  fun_induction Scan.line quote text with
  | case1 quote =>
      rcases quote with _ | ⟨mark, triple | triple⟩ <;> rfl
  | case2 rest =>
      rfl
  | case3 mark _ quote second third tail three inductionHypothesis =>
      obtain ⟨rfl, rfl⟩ := three
      rw [inductionHypothesis]
      exact (scan_opens_three quote tail).symm
  | case4 mark _ quote second third tail notThree inductionHypothesis =>
      rw [inductionHypothesis]
      exact (scan_opens quote (fewer_of_not_three notThree)).symm
  | case5 mark _ quote second inductionHypothesis =>
      rw [inductionHypothesis]
      exact (scan_opens quote (by simp)).symm
  | case6 mark _ quote inductionHypothesis =>
      rw [inductionHypothesis]
      exact (scan_opens quote (by simp)).symm
  | case7 character rest notComment notQuote inductionHypothesis =>
      rw [inductionHypothesis]
      simp [ofDelimiter, scan, step, stepInCode, shown, settle, notComment, notQuote]
  | case8 quote escaped tail inductionHypothesis =>
      rw [inductionHypothesis, ofDelimiter, scan_escape, scan_escaped]
  | case9 quote =>
      rw [ofDelimiter, scan_escape]
      rcases quote with ⟨mark, triple | triple⟩ <;> rfl
  | case10 quote triple second third tail three isMark inductionHypothesis =>
      obtain ⟨rfl, rfl⟩ := three
      rw [inductionHypothesis]
      simp only [ofDelimiter, triple]
      exact (scan_closes_three isMark tail).symm
  | case11 quote triple second third tail notThree isMark inductionHypothesis =>
      rw [inductionHypothesis]
      simp only [ofDelimiter, triple]
      exact (scan_inside_mark isMark (fewer_of_not_three notThree)).symm
  | case12 quote triple second isMark inductionHypothesis =>
      rw [inductionHypothesis]
      simp only [ofDelimiter, triple]
      exact (scan_inside_mark isMark (by simp)).symm
  | case13 quote triple isMark inductionHypothesis =>
      rw [inductionHypothesis]
      simp only [ofDelimiter, triple]
      exact (scan_inside_mark isMark (by simp)).symm
  | case14 quote rest single isMark inductionHypothesis =>
      have closes : stepInside quote.mark quote.triple quote.mark = .code := by
        simp [stepInside, single, isMark]
      rw [inductionHypothesis]
      exact (scan_inside closes (by simp) rest).symm
  | case15 quote character rest notEscape notMark inductionHypothesis =>
      have stays : stepInside quote.mark quote.triple character =
          .inside quote.mark quote.triple := by
        simp [stepInside, notEscape, notMark]
      rw [inductionHypothesis]
      exact (scan_inside stays (by simp) rest).symm

theorem comment_scan
    (scanning : Scanning)
    (text : Text) :
    (scan scanning text).comment = commentOf scanning text := by
  induction text generalizing scanning with
  | nil =>
      rfl
  | cons character rest inductionHypothesis =>
      rw [scan, commentOf]
      split
      · rfl
      · exact inductionHypothesis _

/-- The scan of a line finds the comment where the scan by characters does. -/
theorem comment_eq
    (quote : Option Delimiter)
    (text : Text) :
    (Scan.line quote text).comment = commentOf (ofDelimiter quote) text := by
  rw [scan_eq, comment_scan]

/-- The comment of a text is where the scan reaches one, and what follows. -/
theorem exists_commentOf
    {scanning : Scanning}
    (notComment : scanning ≠ .comment)
    (text : Text) :
    ∃ front, text = front ++ commentOf scanning text ∧
      scanning.through front ≠ .comment ∧
      commentOf (scanning.through front) (commentOf scanning text) = commentOf scanning text := by
  induction text generalizing scanning with
  | nil =>
      exact ⟨[], rfl, notComment, rfl⟩
  | cons character rest inductionHypothesis =>
      by_cases reached : scanning.step character = .comment
      · have whole : commentOf scanning (character :: rest) = character :: rest := by
          rw [commentOf, if_pos reached]
        refine ⟨[], by rw [whole]; rfl, notComment, ?_⟩
        rw [whole]
        exact whole
      · obtain ⟨front, shape, notYet, same⟩ := inductionHypothesis reached
        rw [commentOf, if_neg reached]
        exact ⟨character :: front, congrArg (character :: ·) shape, notYet, same⟩

/-- A text that reaches no comment is passed on the way to it. -/
theorem commentOf_append
    {scanning : Scanning}
    {text : Text}
    (notComment : scanning.through text ≠ .comment)
    (below : Text) :
    commentOf scanning (text ++ below) = commentOf (scanning.through text) below := by
  have stays (text : Text) : Scanning.comment.through text = .comment := by
    induction text with
    | nil =>
        rfl
    | cons _ _ inductionHypothesis =>
        exact inductionHypothesis
  induction text generalizing scanning with
  | nil =>
      rfl
  | cons character rest inductionHypothesis =>
      have notYet : scanning.step character ≠ .comment := by
        intro reached
        rw [through_cons, reached, stays] at notComment
        exact notComment rfl
      rw [List.cons_append, commentOf_step rfl notYet]
      exact inductionHypothesis notComment

/-- The marks that strings are opened with are quotation marks. -/
def IsProper : Scanning → Prop
  | .code | .comment =>
      True
  | .inside mark _ | .escaped mark _ | .behindMark mark _ _ =>
      isQuoteMark mark = true

theorem isProper_stepInCode
    (character : Char) :
    (stepInCode character).IsProper := by
  unfold stepInCode
  split
  · trivial
  · split
    · assumption
    · trivial

theorem isProper_stepInside
    {mark : Char}
    (quote : isQuoteMark mark = true)
    (triple : Bool)
    (character : Char) :
    (stepInside mark triple character).IsProper := by
  unfold stepInside
  split
  · exact quote
  · split
    · split
      · exact quote
      · trivial
    · exact quote

theorem IsProper.step
    {scanning : Scanning}
    (proper : scanning.IsProper)
    (character : Char) :
    (scanning.step character).IsProper := by
  unfold Scanning.step
  split
  · exact isProper_stepInCode _
  · trivial
  · exact isProper_stepInside proper _ _
  · exact proper
  · split
    · exact proper
    · exact isProper_stepInside proper _ _
  · split
    · exact proper
    · exact isProper_stepInCode _
  · split
    · trivial
    · exact isProper_stepInside proper _ _

theorem IsProper.through
    {scanning : Scanning}
    (proper : scanning.IsProper)
    (text : Text) :
    (scanning.through text).IsProper := by
  induction text generalizing scanning with
  | nil =>
      exact proper
  | cons character rest inductionHypothesis =>
      exact inductionHypothesis (proper.step character)

@[simp] theorem settle_settle
    (scanning : Scanning) :
    scanning.settle.settle = scanning.settle := by
  rcases scanning with _ | _ | _ | _ | ⟨mark, triple | triple, twice | twice⟩ <;> rfl

/-- Whether a character opens, closes and escapes nothing, and begins no comment. -/
def isQuiet
    (character : Char) :
    Bool :=
  !(['"', '\'', '\\', '#'].contains character)

theorem isQuoteMark_of_isQuiet
    {character : Char}
    (quiet : isQuiet character = true) :
    isQuoteMark character = false := by
  rw [Bool.eq_false_iff]
  intro quote
  simp only [isQuoteMark, Bool.or_eq_true, beq_iff_eq] at quote
  rcases quote with rfl | rfl <;> exact absurd quiet (by decide)

theorem step_of_isQuiet
    {scanning : Scanning}
    (proper : scanning.IsProper)
    {character : Char}
    (quiet : isQuiet character = true) :
    scanning.step character = scanning.settle := by
  have noQuote := isQuoteMark_of_isQuiet quiet
  have notMark {mark : Char} (quote : isQuoteMark mark = true) : character ≠ mark :=
    (ne_of_isQuoteMark quote noQuote).symm
  have notEscape : character ≠ '\\' := by
    rintro rfl
    exact absurd quiet (by decide)
  have inCode : stepInCode character = .code := by
    have notComment : character ≠ '#' := by
      rintro rfl
      exact absurd quiet (by decide)
    simp [stepInCode, notComment, noQuote]
  have inString {mark : Char} (quote : isQuoteMark mark = true) (triple : Bool) :
      stepInside mark triple character = .inside mark triple := by
    simp [stepInside, notEscape, notMark quote]
  cases scanning with
  | code =>
      exact inCode
  | comment =>
      rfl
  | inside mark triple =>
      exact inString proper triple
  | escaped mark triple =>
      rfl
  | behindMark mark triple twice =>
      cases twice with
      | false =>
          rw [step, if_neg (notMark proper), inString proper]
          cases triple <;> rfl
      | true =>
          cases triple with
          | false =>
              rw [step, if_neg (notMark proper), inCode]
              rfl
          | true =>
              rw [step, if_neg (notMark proper), inString proper]
              rfl

theorem IsProper.settle
    {scanning : Scanning}
    (proper : scanning.IsProper) :
    scanning.settle.IsProper := by
  have stepped := proper.step 'a'
  rwa [step_of_isQuiet proper (by decide)] at stepped

theorem through_of_quiet
    {scanning : Scanning}
    (proper : scanning.IsProper)
    {text : Text}
    (nonempty : text ≠ [])
    (quiet : text.all isQuiet = true) :
    scanning.through text = scanning.settle := by
  induction text generalizing scanning with
  | nil =>
      exact absurd rfl nonempty
  | cons character rest inductionHypothesis =>
      rw [List.all_cons, Bool.and_eq_true] at quiet
      rw [through_cons, step_of_isQuiet proper quiet.1]
      cases rest with
      | nil =>
          rfl
      | cons second others =>
          rw [inductionHypothesis proper.settle (by simp) quiet.2, settle_settle]

/-- What the scan is in the middle of after a text that quiet characters surround. -/
def across
    (scanning : Scanning)
    (text : Text) :
    Scanning :=
  (scanning.settle.through text).settle

@[simp] theorem across_nil
    (scanning : Scanning) :
    scanning.across [] = scanning.settle :=
  settle_settle scanning

@[simp] theorem settle_across
    (scanning : Scanning)
    (text : Text) :
    (scanning.across text).settle = scanning.across text :=
  settle_settle _

@[simp] theorem across_settle
    (scanning : Scanning)
    (text : Text) :
    scanning.settle.across text = scanning.across text := by
  rw [across, settle_settle, across]

theorem IsProper.across
    {scanning : Scanning}
    (proper : scanning.IsProper)
    (text : Text) :
    (scanning.across text).IsProper :=
  (proper.settle.through text).settle

section

variable {scanning : Scanning} (proper : scanning.IsProper)

include proper

theorem settle_through_of_quiet
    {quiet : Text}
    (isQuiet : quiet.all isQuiet = true) :
    (scanning.through quiet).settle = scanning.settle := by
  cases quiet with
  | nil =>
      rfl
  | cons first rest =>
      rw [through_of_quiet proper (by simp) isQuiet, settle_settle]

/-- Quiet characters around a text change nothing. -/
theorem across_quiet_append
    {quiet : Text}
    (isQuiet : quiet.all isQuiet = true)
    (text : Text) :
    scanning.across (quiet ++ text) = scanning.across text := by
  cases quiet with
  | nil =>
      rfl
  | cons first rest =>
      rw [across, through_append, through_of_quiet proper.settle (by simp) isQuiet, settle_settle,
        across]

theorem across_append_quiet
    {quiet : Text}
    (isQuiet : quiet.all isQuiet = true)
    (text : Text) :
    scanning.across (text ++ quiet) = scanning.across text := by
  rw [across, through_append, settle_through_of_quiet (proper.settle.through text) isQuiet, across]

/-- Quiet characters part what is before them from what is behind. -/
theorem across_parted
    {quiet : Text}
    (nonempty : quiet ≠ [])
    (isQuiet : quiet.all isQuiet = true)
    (first second : Text) :
    scanning.across (first ++ (quiet ++ second)) = (scanning.across first).across second := by
  rw [across, through_append, through_append,
    through_of_quiet (proper.settle.through first) nonempty isQuiet, across, across, settle_settle]

/-- A text between quiet characters. -/
theorem through_surrounded
    {front back : Text}
    (frontNonempty : front ≠ [])
    (frontQuiet : front.all isQuiet = true)
    (backNonempty : back ≠ [])
    (backQuiet : back.all isQuiet = true)
    (text : Text) :
    scanning.through (front ++ (text ++ back)) = scanning.across text := by
  rw [through_append, through_append, through_of_quiet proper frontNonempty frontQuiet,
    through_of_quiet (proper.settle.through text) backNonempty backQuiet, across]

theorem across_of_quiet
    {quiet : Text}
    (isQuiet : quiet.all isQuiet = true) :
    scanning.across quiet = scanning.settle := by
  simpa using across_append_quiet proper isQuiet []

end

theorem isQuiet_of_isPlainChar
    {character : Char}
    (plain : isPlainChar character = true) :
    isQuiet character = true := by
  unfold isQuiet
  rw [Bool.not_eq_true', ← Bool.not_eq_true, List.contains_iff_mem]
  intro isMark
  have notPlain : ['"', '\'', '\\', '#'].any isPlainChar = false := by
    decide
  exact List.any_eq_false.mp notPlain character isMark plain

theorem isQuiet_of_isClosingBracket
    {character : Char}
    (closes : isClosingBracket character = true) :
    isQuiet character = true := by
  simp only [isClosingBracket, Bool.or_eq_true, beq_iff_eq] at closes
  rcases closes with (rfl | rfl) | rfl <;> decide

theorem all_isQuiet_of_plain
    {text : Text}
    (plain : text.all isPlainChar = true) :
    text.all isQuiet = true := by
  rw [List.all_eq_true] at plain ⊢
  exact fun character member => isQuiet_of_isPlainChar (plain character member)

theorem all_isQuiet_of_blank
    {text : Text}
    (blank : text.all isBlankChar = true) :
    text.all isQuiet = true :=
  all_isQuiet_of_plain (all_isPlainChar_of_blank blank)

theorem all_isQuiet_of_isIdentifier
    {name : Text}
    (named : isIdentifier name = true) :
    name.all isQuiet = true :=
  all_isQuiet_of_plain (all_isPlainChar_of_word (all_isIdentifierChar_of_isIdentifier named))

/-- A mark before and a mark behind quiet characters change nothing. -/
theorem settle_quoted
    {mark : Char}
    (quote : isQuoteMark mark = true)
    (scanning : Scanning) :
    (((scanning.settle.step mark).settle).step mark).settle = scanning.settle := by
  have notEscape : mark ≠ '\\' := ne_of_isQuoteMark quote rfl
  have inCode : (((Scanning.code.step mark).settle).step mark).settle = .code := by
    rw [step_quote quote]
    simp [settle, step, stepInside, notEscape]
  have inString (other : Char) (triple : Bool) :
      (((Scanning.inside other triple).step mark).settle.step mark).settle =
        .inside other triple := by
    by_cases same : mark = other
    · subst same
      cases triple with
      | false =>
          have closes : (Scanning.inside mark false).step mark = .code := by
            simp [step, stepInside, notEscape]
          rw [closes, settle, step_quote quote, settle]
      | true =>
          have mayClose : (Scanning.inside mark true).step mark = .behindMark mark true false := by
            simp [step, stepInside, notEscape]
          rw [mayClose, settle, mayClose, settle]
    · have stays : (Scanning.inside other triple).step mark = .inside other triple := by
        simp [step, stepInside, notEscape, same]
      rw [stays, settle, stays, settle]
  match scanning with
  | .code | .behindMark _ false true =>
      exact inCode
  | .comment =>
      rfl
  | .inside other triple | .escaped other triple =>
      exact inString other triple
  | .behindMark other false false =>
      exact inString other false
  | .behindMark other true false | .behindMark other true true =>
      exact inString other true

/-- The blanks around a text change nothing. -/
theorem across_trim
    {scanning : Scanning}
    (proper : scanning.IsProper)
    (text : Text) :
    scanning.across text.trim = scanning.across text := by
  obtain ⟨front, back, frontBlank, backBlank, shape⟩ := text.exists_trim
  conv_rhs => rw [shape]
  rw [across_quiet_append proper (all_isQuiet_of_blank frontBlank),
    across_append_quiet proper (all_isQuiet_of_blank backBlank)]

/-- An identifier in quotes leaves the scan where it was. -/
theorem across_literal
    {scanning : Scanning}
    (proper : scanning.IsProper)
    {text name : Text}
    (literal : identifierLiteral? text = some name) :
    scanning.across text = scanning.settle := by
  obtain ⟨named, mark, quote, shape⟩ := identifierLiteral?_eq_some literal
  have quoted : scanning.across text = scanning.across (mark :: (name ++ [mark])) := by
    rw [← across_trim proper]
    rcases shape with bare | marked
    · rw [bare]
    · rw [marked]
      exact across_quiet_append proper (by decide : ['&'].all isQuiet = true) _
  have nonempty : name ≠ [] := by
    rintro rfl
    cases named
  calc
    scanning.across text
      = scanning.across (mark :: (name ++ [mark])) := quoted
    _ = (((scanning.settle.step mark).settle).step mark).settle := by
        rw [across, through_cons, through_append,
          through_of_quiet (proper.settle.step mark) nonempty (all_isQuiet_of_isIdentifier named)]
        rfl
    _ = scanning.settle := settle_quoted quote scanning

theorem across_joinWith
    {scanning : Scanning}
    (proper : scanning.IsProper)
    {separator : Text}
    (nonempty : separator ≠ [])
    (quiet : separator.all isQuiet = true)
    (pieces : List Text) :
    scanning.across (Text.joinWith separator pieces) = pieces.foldl across scanning.settle := by
  induction pieces generalizing scanning with
  | nil =>
      exact across_nil scanning
  | cons first others inductionHypothesis =>
      cases others with
      | nil =>
          simp [Text.joinWith_singleton]
      | cons second rest =>
          rw [Text.joinWith_cons_cons, across_parted proper nonempty quiet, inductionHypothesis (proper.across first),
            settle_across]
          conv_rhs => rw [List.foldl_cons, across_settle]

theorem foldl_across_trim
    {scanning : Scanning}
    (proper : scanning.IsProper)
    (pieces : List Text) :
    (pieces.map Text.trim).foldl across scanning = pieces.foldl across scanning := by
  induction pieces generalizing scanning with
  | nil =>
      rfl
  | cons first others inductionHypothesis =>
      rw [List.map_cons, List.foldl_cons, List.foldl_cons, across_trim proper]
      exact inductionHypothesis (proper.across first)

/-- A call takes the scan across its arguments. -/
theorem through_callText
    {scanning : Scanning}
    (proper : scanning.IsProper)
    {callee : Text}
    (name : CalleeName callee)
    {pieces : List Text}
    {text : Text}
    (called : CallText callee pieces text)
    (some : argumentsOf pieces ≠ []) :
    scanning.through text = (argumentsOf pieces).foldl across scanning.settle := by
  obtain ⟨_, gap, closing, spaces, closes, rfl⟩ := called
  have arguments : argumentsOf pieces = pieces.map Text.trim := by
    unfold argumentsOf at some ⊢
    split
    · rename_i blank
      rw [if_pos blank] at some
      exact absurd rfl some
    · rfl
  have frontQuiet : (callee ++ (gap ++ ['('])).all isQuiet = true := by
    have space : isQuiet ' ' = true := by
      decide
    rw [List.all_eq_true] at spaces
    simp only [List.all_eq_true, List.mem_append, List.mem_singleton]
    rintro character (inCallee | inGap | rfl)
    · exact isQuiet_of_isPlainChar (isPlainChar_of_isIdentifierChar
        (List.all_eq_true.mp name.word character inCallee))
    · rw [beq_iff_eq.mp (spaces character inGap)]
      exact space
    · decide
  have backQuiet : [closing].all isQuiet = true := by
    simp [isQuiet_of_isClosingBracket closes]
  have layout : callee ++ (gap ++ '(' :: (Text.joinWith [','] pieces ++ [closing])) =
      (callee ++ (gap ++ ['('])) ++ (Text.joinWith [','] pieces ++ [closing]) := by
    simp
  rw [layout, through_surrounded proper (by simp) frontQuiet (by simp) backQuiet,
    across_joinWith proper (by simp) (by decide), arguments, foldl_across_trim proper.settle]

/-- A signal call takes the scan across what stands in its brackets. -/
theorem through_signalCall
    {scanning : Scanning}
    (proper : scanning.IsProper)
    {signal method : Text}
    (named : isIdentifier signal = true)
    (methodQuiet : method.all isQuiet = true)
    (inner : Text) :
    scanning.through (signal ++ '.' :: (method ++ '(' :: (inner ++ [')']))) =
      scanning.across inner := by
  have frontQuiet : (signal ++ '.' :: (method ++ ['('])).all isQuiet = true := by
    have marks : isQuiet '.' = true ∧ isQuiet '(' = true := by
      decide
    simp [all_isQuiet_of_isIdentifier named, methodQuiet, marks]
  have layout : signal ++ '.' :: (method ++ '(' :: (inner ++ [')'])) =
      (signal ++ '.' :: (method ++ ['('])) ++ (inner ++ [')']) := by
    simp
  rw [layout]
  exact through_surrounded proper (by simp) frontQuiet (by simp) (by decide) inner

theorem across_bindSuffix?
    {scanning : Scanning}
    (proper : scanning.IsProper)
    {binds bound : Text}
    (isBound : bindSuffix? binds = some bound) :
    scanning.across bound = scanning.across binds := by
  obtain ⟨inner, rfl, rfl⟩ := bindSuffix?_eq_some isBound
  have bracketed : scanning.across ('[' :: (inner ++ [']'])) = scanning.across inner.trim := by
    rw [across_trim proper, ← across_append_quiet proper (by decide : [']'].all isQuiet = true) inner]
    exact across_quiet_append proper (by decide : ['['].all isQuiet = true) _
  rw [bracketed]
  split
  · rename_i nothing
    rw [nothing]
  · rw [List.append_assoc, across_quiet_append proper (by decide),
      across_append_quiet proper (by decide)]

/-- What is bound and the flags take the scan across the arguments they come from. -/
theorem across_extras
    {scanning : Scanning}
    (proper : scanning.IsProper)
    {more : List Text}
    (few : more.length ≤ 2)
    {bound : Text}
    (isBound : (more.head?.map bindSuffix?).getD (some []) = some bound) :
    scanning.across (bound ++ (more[1]?.map (", ".toList ++ ·)).getD []) =
      more.foldl across scanning.settle := by
  match more, few with
  | [], _ =>
      obtain rfl := Option.some.inj isBound
      exact across_nil scanning
  | [binds], _ =>
      have noFlags : (([binds][1]?).map (", ".toList ++ ·)).getD [] = ([] : Text) :=
        rfl
      rw [noFlags, List.append_nil, across_bindSuffix? proper isBound, List.foldl_cons, across_settle,
        List.foldl_nil]
  | [binds, flag], _ =>
      have withFlag : (([binds, flag][1]?).map (", ".toList ++ ·)).getD [] = ", ".toList ++ flag :=
        rfl
      rw [withFlag, across_parted proper (by simp) (by decide), across_bindSuffix? proper isBound,
        List.foldl_cons, List.foldl_cons, across_settle, List.foldl_nil]

/-- The newer form of a connection takes the scan across the arguments of the older one. -/
theorem through_rebuiltSignalCall?
    {scanning : Scanning}
    (proper : scanning.IsProper)
    {method : String}
    (methodQuiet : method.toList.all isQuiet = true)
    {extras : Bool}
    {arguments : List Text}
    {text : Text}
    (built : rebuiltSignalCall? method extras arguments = some text) :
    scanning.through text = arguments.foldl across scanning.settle := by
  obtain ⟨signalText, target, handlerText, more, signal, handler, bound, rfl, allowed, isSignal,
    isHandler, isBound, rfl⟩ := rebuiltSignalCall?_eq_some built
  have few : more.length ≤ 2 := by
    simpa using (Bool.or_eq_false_iff.mp allowed).2
  have handlerQuiet := all_isQuiet_of_isIdentifier (identifierLiteral?_eq_some isHandler).1
  have callable (tail : Text) :
      scanning.across ((if target = "self".toList then handler else target ++ ['.'] ++ handler) ++
        tail) = (scanning.across target).across tail := by
    split
    · rename_i itself
      have selfQuiet : "self".toList.all isQuiet = true := by
        decide
      rw [across_quiet_append proper handlerQuiet, itself, across_of_quiet proper selfQuiet,
        across_settle]
    · have partQuiet : (['.'] ++ handler).all isQuiet = true := by
        rw [List.all_append, handlerQuiet]
        decide
      rw [List.append_assoc target, List.append_assoc target]
      exact across_parted proper (by simp) partQuiet target tail
  have layout : signal ++ ['.'] ++ method.toList ++ ['('] ++
      (if target = "self".toList then handler else target ++ ['.'] ++ handler) ++ bound ++
      (more[1]?.map (", ".toList ++ ·)).getD [] ++ [')'] =
      signal ++ '.' :: (method.toList ++ '(' :: (((if target = "self".toList then handler
        else target ++ ['.'] ++ handler) ++ (bound ++
        (more[1]?.map (", ".toList ++ ·)).getD [])) ++ [')'])) := by
    simp only [List.append_assoc, List.cons_append, List.nil_append]
  rw [layout, through_signalCall proper (identifierLiteral?_eq_some isSignal).1 methodQuiet, callable,
    across_extras (proper.across target) few isBound, settle_across]
  simp only [List.foldl_cons]
  rw [across_literal proper.settle isSignal, settle_settle, across_settle,
    across_literal (proper.across target) isHandler, settle_across]

/-- The newer form of an emission takes the scan across the arguments of the older one. -/
theorem through_emitCall?
    {scanning : Scanning}
    (proper : scanning.IsProper)
    {arguments : List Text}
    {text : Text}
    (built : emitCall? arguments = some text) :
    scanning.through text = arguments.foldl across scanning.settle := by
  obtain ⟨signalText, values, signal, rfl, isSignal, rfl⟩ := emitCall?_eq_some built
  have layout : signal ++ ".emit(".toList ++ Text.joinWith ", ".toList values ++ [')'] =
      signal ++ '.' :: ("emit".toList ++ '(' :: (Text.joinWith ", ".toList values ++ [')'])) := by
    simp
  rw [layout, through_signalCall proper (identifierLiteral?_eq_some isSignal).1 (by decide),
    across_joinWith proper (by simp) (by decide), List.foldl_cons,
    across_literal proper.settle isSignal, settle_settle]

end Scanning

namespace ReplacesCalls

variable {rule : UpliftRule} {callee : String} {build : List Text → Option Text}

/-- A call and its newer form take the scan from the same state to the same state. -/
theorem through_eq
    (replaces : ReplacesCalls rule callee build)
    (notSuspension : rule ≠ .suspension)
    {pieces : List Text}
    {old new : Text}
    (called : CallText callee.toList pieces old)
    (built : build (argumentsOf pieces) = some new)
    {scanning : Scanning}
    (proper : scanning.IsProper) :
    scanning.through new = scanning.through old := by
  have some : argumentsOf pieces ≠ [] := by
    intro none
    rw [none] at built
    cases replaces <;> cases built
  rw [Scanning.through_callText proper replaces.calleeName called some]
  cases replaces with
  | connect | disconnect | isConnected =>
      exact Scanning.through_rebuiltSignalCall? proper (by decide) built
  | emit =>
      exact Scanning.through_emitCall? proper built
  | suspension =>
      exact absurd rfl notSuspension

theorem through_replaceCallsFrom
    (replaces : ReplacesCalls rule callee build)
    (notSuspension : rule ≠ .suspension)
    (limit rank : Nat)
    (code : Text)
    {scanning : Scanning}
    (proper : scanning.IsProper) :
    scanning.through (replaceCallsFrom callee.toList build limit rank code).1 =
      scanning.through code := by
  refine replaceCallsFrom_preserves replaces.calleeName
    (fun other => scanning.through other = scanning.through code) ?_ limit rank rfl
  intro above old rest pieces new _ called built same
  rw [← same]
  simp only [Scanning.through_append]
  rw [replaces.through_eq notSuspension called built (proper.through above)]

/-- Code that begins with no blank begins with none when calls are replaced. -/
theorem dropIndentation_replaceCallsFrom
    (replaces : ReplacesCalls rule callee build)
    (limit rank : Nat)
    {code : Text}
    (flush : code.dropIndentation = code) :
    Text.dropIndentation (replaceCallsFrom callee.toList build limit rank code).1 =
      (replaceCallsFrom callee.toList build limit rank code).1 := by
  refine replaceCallsFrom_preserves replaces.calleeName
    (fun other => Text.dropIndentation other = other) ?_ limit rank flush
  intro above old rest pieces new _ called built flush
  cases above with
  | nil =>
      have operand := replaces.operand
        (fun _ member => isClosed_of_mem_argumentsOf called.closed member) built
      obtain ⟨first, others, rfl, word⟩ := operand.exists_head
      have notIndent : isIndentChar first = false := by
        rw [Bool.eq_false_iff]
        intro indent
        simp only [isIndentChar, Bool.or_eq_true, beq_iff_eq] at indent
        rcases indent with rfl | rfl <;> exact absurd word (by decide)
      exact List.dropWhile_cons_of_neg (by simp [notIndent])
  | cons first others =>
      have notIndent : isIndentChar first = false := by
        rw [Bool.eq_false_iff]
        intro indent
        have shorter := congrArg List.length flush
        have bound := Text.length_dropIndentation_le (others ++ (old ++ rest))
        rw [List.cons_append, Text.dropIndentation, List.dropWhile_cons_of_pos indent,
          List.length_cons] at shorter
        unfold Text.dropIndentation at bound
        omega
      exact List.dropWhile_cons_of_neg (by simp [notIndent])

end ReplacesCalls

namespace LineParts

/-- The code of a line begins with no blank. -/
theorem dropIndentation_code
    (text : Text) :
    (ofText text).code.dropIndentation = (ofText text).code :=
  List.dropWhile_idempotent _ _

/-- Code that takes the scan where the code of a line takes it leaves the comment as it is. -/
theorem comment_withCode
    {text code : Text}
    (same : Scanning.through .code ((ofText text).indentation ++ code) =
      Scanning.through .code ((ofText text).indentation ++ (ofText text).code)) :
    (ofText ((ofText text).withCode code)).comment = (ofText text).comment := by
  have inCode : Scanning.code ≠ .comment := by
    simp
  obtain ⟨front, shape, notComment, again⟩ := Scanning.exists_commentOf inCode text
  have isComment : Scanning.commentOf .code text = (ofText text).comment :=
    (Scanning.comment_eq none text).symm
  rw [isComment] at shape again
  have isFront : front = (ofText text).indentation ++ (ofText text).code := by
    have joined : front ++ (ofText text).comment =
        ((ofText text).indentation ++ (ofText text).code) ++ (ofText text).comment :=
      shape.symm.trans (withCode_code text).symm
    exact List.append_cancel_right joined
  rw [isFront, ← same] at notComment again
  calc
    (ofText ((ofText text).withCode code)).comment
      = Scanning.commentOf .code ((ofText text).withCode code) :=
        Scanning.comment_eq none _
    _ = (ofText text).comment := by
        rw [withCode, Scanning.commentOf_append notComment, again]

/-- Code that begins with no blank is the code of the line it is put on if the comment stays. -/
theorem ofText_withCode
    {text code : Text}
    (sameComment : (ofText ((ofText text).withCode code)).comment = (ofText text).comment)
    (flush : code.dropIndentation = code) :
    ofText ((ofText text).withCode code) = { ofText text with code := code } := by
  have newCode : (Scan.line none ((ofText text).withCode code)).code =
      (ofText text).indentation ++ code := by
    have parts := Scan.code_append_comment none ((ofText text).withCode code)
    have isComment : (Scan.line none ((ofText text).withCode code)).comment =
        (ofText text).comment :=
      sameComment
    rw [isComment] at parts
    exact List.append_cancel_right parts
  have indented : ∀ character ∈ (ofText text).indentation, isIndentChar character = true :=
    fun _ member => List.mem_takeWhile_imp member
  have noIndent : Text.indentation code = [] := by
    have parts := Text.indentation_append_dropIndentation code
    rw [flush] at parts
    simpa using parts
  have newIndentation : Text.indentation ((ofText text).indentation ++ code) =
      (ofText text).indentation := by
    rw [Text.indentation, List.takeWhile_append_of_pos indented, ← Text.indentation, noIndent,
      List.append_nil]
  have newFlush : Text.dropIndentation ((ofText text).indentation ++ code) = code := by
    rw [Text.dropIndentation, List.dropWhile_append_of_pos indented]
    exact flush
  calc
    ofText ((ofText text).withCode code)
      = ⟨(Scan.line none ((ofText text).withCode code)).code.indentation,
          (Scan.line none ((ofText text).withCode code)).code.dropIndentation,
          (ofText ((ofText text).withCode code)).comment⟩ := rfl
    _ = { ofText text with code := code } := by
        rw [newCode, sameComment, newIndentation, newFlush]

end LineParts

end ScriptUplift
