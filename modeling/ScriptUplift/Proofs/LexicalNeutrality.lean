import Mathlib.Algebra.BigOperators.Group.List.Basic
import Mathlib.Algebra.Ring.Int.Defs
import Mathlib.Data.List.Basic
import Mathlib.Data.List.Infix
import Mathlib.Data.List.TakeWhile
import Mathlib.Tactic.Common
import ScriptUplift.Proofs.EditedLines
import ScriptUplift.Script.Reading

namespace ScriptUplift

/-!
# Lines that are read on from as before

What a line hands to the next one is an open string, the number of open brackets
and a pending backslash.  On a line without multiline strings a rule changes none
of them: the edited line has the change of depth, the comment and the backslash
that the line had, and an annotation above it hands on nothing.  So the lines
below are read as they were.
-/

/-! ## Lines without multiline strings -/

/-- A text in which no quotation mark follows another one of its kind twice. -/
structure HasNoTriple
    (text : Text) :
    Prop where
  double : ¬"\"\"\"".toList <:+: text
  single : ¬"'''".toList <:+: text

namespace Scanning

/-- The marks right before that may be the beginning of three marks. -/
def recent : Scanning → Text
  | .behindMark mark _ false =>
      [mark]
  | .behindMark mark _ true =>
      [mark, mark]
  | _ =>
      []

theorem recent_step
    (scanning : Scanning)
    (character : Char) :
    (scanning.step character).recent <:+ scanning.recent ++ [character] := by
  have inCode : (stepInCode character).recent <:+ [character] := by
    unfold stepInCode
    split
    · exact List.nil_suffix
    · split
      · exact List.suffix_refl _
      · exact List.nil_suffix
  have inside (mark : Char) (triple : Bool) :
      (stepInside mark triple character).recent <:+ [character] := by
    unfold stepInside
    split
    · exact List.nil_suffix
    · split
      · rename_i same
        subst same
        cases triple
        · exact List.nil_suffix
        · exact List.suffix_refl _
      · exact List.nil_suffix
  have behind {recent : Text} (above : Text) (own : recent <:+ [character]) :
      recent <:+ above ++ [character] :=
    own.trans (List.suffix_append above [character])
  rcases scanning with _ | _ | _ | _ | ⟨mark, triple | triple, twice | twice⟩
  · exact inCode
  · exact List.nil_suffix
  · exact inside _ _
  · exact List.nil_suffix
  all_goals
    rw [step]
    split
    · rename_i same
      subst same
      first
        | exact List.suffix_refl _
        | exact List.nil_suffix
    · first
        | exact behind _ inCode
        | exact behind _ (inside _ _)

/-- A multiline string is opened by a third mark only. -/
theorem openString_step
    {scanning : Scanning}
    (single : scanning.openString = none)
    {character : Char}
    (noTriple : ∀ mark, scanning.recent ++ [character] ≠ [mark, mark, mark]) :
    (scanning.step character).openString = none := by
  have inCode : (stepInCode character).openString = none := by
    unfold stepInCode
    split
    · rfl
    · split <;> rfl
  have inside (mark : Char) : (stepInside mark false character).openString = none := by
    unfold stepInside
    split
    · rfl
    · split <;> rfl
  rcases scanning with _ | _ | ⟨mark, triple | triple⟩ | ⟨mark, triple | triple⟩ |
    ⟨mark, triple | triple, twice | twice⟩ <;> try cases single
  · exact inCode
  · rfl
  · exact inside mark
  · rfl
  · rw [step]
    split
    · rfl
    · exact inside mark
  · rw [step]
    split
    · rename_i same
      exact absurd (congrArg ([mark, mark, ·]) same) (noTriple mark)
    · exact inCode

theorem IsProper.isQuoteMark_of_recent
    {scanning : Scanning}
    (proper : scanning.IsProper)
    {mark : Char}
    {others : Text}
    (isRecent : scanning.recent = mark :: others) :
    isQuoteMark mark = true := by
  rcases scanning with _ | _ | _ | _ | ⟨own, triple, twice | twice⟩ <;> try cases isRecent
  · exact proper
  · exact proper

theorem pairsMarks_of_noTriple
    {scanning : Scanning}
    (proper : scanning.IsProper)
    (single : scanning.openString = none)
    {text : Text}
    (free : ∀ mark, isQuoteMark mark = true → ¬[mark, mark, mark] <:+: scanning.recent ++ text) :
    scanning.pairsMarks text = true ∧ (scanning.through text).openString = none := by
  induction text generalizing scanning with
  | nil =>
      exact ⟨rfl, single⟩
  | cons character rest inductionHypothesis =>
      have pairs : scanning.pairs character = true := by
        rcases scanning with _ | _ | _ | _ | ⟨mark, triple | triple, twice | twice⟩ <;> first
          | rfl
          | cases single
      have parts : scanning.recent ++ character :: rest =
          (scanning.recent ++ [character]) ++ rest := by
        simp
      have noTriple : ∀ mark, scanning.recent ++ [character] ≠ [mark, mark, mark] := by
        intro mark shape
        have isRecent : scanning.recent = [mark, mark] :=
          List.append_inj_left' (shape : scanning.recent ++ [character] = [mark, mark] ++ [mark]) rfl
        refine free mark (proper.isQuoteMark_of_recent isRecent) ⟨[], rest, ?_⟩
        rw [parts, shape, List.nil_append]
      -- The marks right before are part of what must be free: three of them may be begun there.
      have below := inductionHypothesis (proper.step character) (openString_step single noTriple)
        (fun mark quote inside => free mark quote (by
          rw [parts]
          obtain ⟨front, shape⟩ := recent_step scanning character
          rw [← shape, List.append_assoc]
          exact inside.trans (List.suffix_append front _).isInfix))
      rw [pairsMarks, pairs]
      exact below

theorem openString_scan
    {scanning : Scanning}
    {text : Text}
    (single : (scanning.through text).openString = none) :
    (scanning.scan text).openString = none := by
  induction text generalizing scanning with
  | nil =>
      exact single
  | cons character rest inductionHypothesis =>
      rw [scan]
      split
      · rfl
      · exact inductionHypothesis single

end Scanning

namespace HasNoTriple

variable {text : Text} (free : HasNoTriple text)

include free

theorem pairsMarks_and_openString :
    Scanning.code.pairsMarks text = true ∧ (Scanning.code.through text).openString = none := by
  refine Scanning.pairsMarks_of_noTriple Scanning.isProper_code rfl fun mark quote => ?_
  simp only [isQuoteMark, Bool.or_eq_true, beq_iff_eq] at quote
  rcases quote with rfl | rfl
  · exact free.double
  · exact free.single

/-- Without three marks in a row no mark stands alone in a string with three marks. -/
theorem pairsMarks : Scanning.code.pairsMarks text = true :=
  free.pairsMarks_and_openString.1

theorem openString : (Scan.line none text).openString = none := by
  rw [Scanning.scan_eq]
  exact Scanning.openString_scan free.pairsMarks_and_openString.2

end HasNoTriple

/-! ## The last character -/

/-- The last character of a text in front of the indentation it ends in. -/
def Text.lastVisible
    (text : Text) :
    Option Char :=
  text.reverse.find? (!isIndentChar ·)

theorem Text.lastVisible_append
    (first second : Text) :
    Text.lastVisible (first ++ second) = second.lastVisible.or first.lastVisible := by
  rw [lastVisible, List.reverse_append, List.find?_append]
  rfl

/-- The last visible character is the last one, if that is visible. -/
theorem Text.lastVisible_of_getLast?
    {text : Text}
    {last : Char}
    (isLast : text.getLast? = some last)
    (visible : isIndentChar last = false) :
    text.lastVisible = some last := by
  obtain ⟨front, rfl⟩ := List.getLast?_eq_some_iff.mp isLast
  rw [lastVisible, List.reverse_append, List.reverse_singleton, List.singleton_append,
    List.find?_cons_of_pos (by simp [visible])]

/-- How code ends is told by its last visible character. -/
theorem Text.endsWith_dropEndIndentation
    (code : Text)
    (mark : Char) :
    code.dropEndIndentation.endsWith [mark] = (code.lastVisible == some mark) := by
  unfold dropEndIndentation dropEndWhile endsWith lastVisible
  rw [Bool.eq_iff_iff, List.isSuffixOf_iff_suffix, ← List.reverse_prefix, List.reverse_reverse,
    List.find?_not_eq_head?_dropWhile, beq_iff_eq]
  cases code.reverse.dropWhile isIndentChar with
  | nil =>
      simp
  | cons last others =>
      simp [List.cons_prefix_cons, eq_comm]

/-- A line is continued by its last character only. -/
theorem Scan.backslash_eq
    (scan : Scan) :
    scan.backslash = (scan.openString.isNone && scan.code.lastVisible == some '\\') := by
  rw [backslash, Text.endsWith_dropEndIndentation]

/-- A text that ends in something else than a backslash, up to indentation. -/
def EndsTidily
    (text : Text) :
    Prop :=
  ∃ last, text.lastVisible = some last ∧ last ≠ '\\'

theorem endsTidily_concat
    (front : Text)
    {last : Char}
    (visible : isIndentChar last = false)
    (other : last ≠ '\\') :
    EndsTidily (front ++ [last]) := by
  exact ⟨last, Text.lastVisible_of_getLast? List.getLast?_concat visible, other⟩

theorem endsTidily_of_plain
    {text : Text}
    (plain : text.all isPlainChar = true)
    {character : Char}
    (member : character ∈ text)
    (visible : isIndentChar character = false) :
    EndsTidily text := by
  have found : text.lastVisible.isSome = true := by
    rw [Text.lastVisible, List.find?_isSome]
    exact ⟨character, List.mem_reverse.mpr member, by simp [visible]⟩
  obtain ⟨last, isLast⟩ := Option.isSome_iff_exists.mp found
  have inText : last ∈ text :=
    List.mem_reverse.mp (List.mem_of_find?_eq_some isLast)
  refine ⟨last, isLast, ?_⟩
  rintro rfl
  exact absurd (List.all_eq_true.mp plain _ inText) (by decide)

/-- Words do not end in a backslash. -/
theorem IsWording.endsTidily
    {text : Text}
    (words : IsWording text) :
    EndsTidily text := by
  obtain ⟨letter, member, isLetter⟩ := List.any_eq_true.mp words.letters
  exact endsTidily_of_plain words.plain member (isIndentChar_of_isIdentifierChar isLetter)

/-! ## Edits -/

/-- Everything that is built begins flush and ends in no backslash. -/
def BuildsTidily
    (build : List Text → Option Text) :
    Prop :=
  ∀ arguments text, build arguments = some text → text.IsFlush ∧ EndsTidily text

theorem IsSignalForm.isTidy
    {text : Text}
    (form : IsSignalForm text) :
    text.IsFlush ∧ EndsTidily text := by
  obtain ⟨signal, inner, named, _, rfl⟩ := form
  constructor
  · have letters : signal.all isIdentifierChar = true :=
      List.all_eq_true.mpr fun _ member => isIdentifierChar_of_mem named member
    exact (Text.isFlush_of_word letters).append fun _ => rfl
  · rw [← List.cons_append, ← List.append_assoc]
    exact endsTidily_concat _ (by decide) (by decide)

/-- All rules but the one for suspensions build tidily. -/
theorem UpliftRule.buildsTidily
    {rule : UpliftRule}
    (notSuspension : rule ≠ .suspension) :
    BuildsTidily rule.build := by
  cases rule with
  | toolDirective | preloadStutter | deferredInit =>
      exact fun _ _ built => nomatch built
  | exportedField =>
      intro arguments text built
      obtain rfl := Option.some.inj built
      exact ⟨rfl, 't', rfl, by decide⟩
  | connect | disconnect | isConnected =>
      exact fun _ _ built => (isSignalForm_rebuiltSignalCall? built).isTidy
  | emit =>
      exact fun _ _ built => (isSignalForm_emitCall? built).isTidy
  | suspension =>
      exact absurd rfl notSuspension

/-- A call ends in a bracket. -/
theorem SpacedCall.endsTidily
    {callee text : Text}
    {pieces : List Text}
    (called : SpacedCall callee pieces text) :
    EndsTidily text := by
  obtain ⟨front, closing, _, closes, rfl⟩ := called.exists_front
  rw [← List.cons_append, ← List.append_assoc]
  simp only [isClosingBracket, Bool.or_eq_true, beq_iff_eq] at closes
  rcases closes with (rfl | rfl) | rfl <;> exact endsTidily_concat _ (by decide) (by decide)

/-- Code with the same beginning and end, as far as indentation and a backslash go. -/
structure BorderedAlike
    (code result : Text) :
    Prop where
  flush : code.IsFlush → result.IsFlush
  backslash : (result.lastVisible == some '\\') = (code.lastVisible == some '\\')

section

variable {callee : Text} {build : List Text → Option Text} {code result : Text}

theorem borderedAlike_of_ends
    {above old new rest : Text}
    (oldEnds : EndsTidily old)
    (newFlush : new.IsFlush)
    (newEnds : EndsTidily new) :
    BorderedAlike (above ++ (old ++ rest)) (above ++ (new ++ rest)) := by
  constructor
  · intro flush
    cases above with
    | nil =>
        refine newFlush.append ?_
        rintro rfl
        obtain ⟨_, none, _⟩ := newEnds
        cases none
    | cons first others =>
        exact Text.isFlush_iff.mpr (Text.isFlush_iff.mp flush : ∀ _ ∈ (first :: _).head?, _)
  · obtain ⟨oldLast, oldFound, oldOther⟩ := oldEnds
    obtain ⟨newLast, newFound, newOther⟩ := newEnds
    simp only [Text.lastVisible_append, oldFound, newFound]
    cases rest.lastVisible with
    | none =>
        simp [oldOther, newOther]
    | some last =>
        rfl

theorem Edit.borderedAlike
    (edit : Edit callee build code result)
    (tidy : BuildsTidily build) :
    BorderedAlike code result := by
  cases edit with
  | words _ oldWords newWords newFlush =>
      exact borderedAlike_of_ends oldWords.endsTidily newFlush newWords.endsTidily
  | call _ called built =>
      obtain ⟨newFlush, newEnds⟩ := tidy _ _ built
      exact borderedAlike_of_ends called.endsTidily newFlush newEnds

theorem Edits.borderedAlike
    (edits : Edits callee build code result)
    (tidy : BuildsTidily build) :
    BorderedAlike code result := by
  induction edits with
  | refl =>
      exact ⟨id, rfl⟩
  | tail _ edit inductionHypothesis =>
      have last := edit.borderedAlike tidy
      exact ⟨last.flush ∘ inductionHypothesis.flush,
        last.backslash.trans inductionHypothesis.backslash⟩

end

/-! ## Lines -/

namespace Scanning

/-- Only its mark begins a comment. -/
theorem eq_of_step_eq_comment
    {scanning : Scanning}
    (notComment : scanning ≠ .comment)
    {character : Char}
    (begins : scanning.step character = .comment) :
    character = '#' := by
  have inCode (begins : stepInCode character = .comment) : character = '#' := by
    unfold stepInCode at begins
    split at begins
    · assumption
    · split at begins <;> cases begins
  have inside (mark : Char) (triple : Bool) : stepInside mark triple character ≠ .comment := by
    unfold stepInside
    split
    · simp
    · split
      · cases triple <;> simp
      · simp
  rcases scanning with _ | _ | ⟨mark, triple⟩ | _ | ⟨mark, triple | triple, twice | twice⟩
  · exact inCode begins
  · exact absurd rfl notComment
  · exact absurd begins (inside mark triple)
  · cases begins
  all_goals
    rw [step] at begins
    split at begins
    · cases begins
    · first
        | exact inCode begins
        | exact absurd begins (inside mark _)

theorem commentOf_eq_cons
    {scanning : Scanning}
    (notComment : scanning ≠ .comment)
    {text rest : Text}
    {first : Char}
    (comment : commentOf scanning text = first :: rest) :
    first = '#' := by
  induction text generalizing scanning with
  | nil =>
      cases comment
  | cons character others inductionHypothesis =>
      rw [commentOf] at comment
      split at comment
      · rename_i begins
        rw [← (List.cons.inj comment).1]
        exact eq_of_step_eq_comment notComment begins
      · rename_i goesOn
        exact inductionHypothesis goesOn comment

end Scanning

namespace LineParts

/-- A comment begins with its mark. -/
theorem head?_comment
    (text : Text) :
    ∀ first ∈ (ofText text).comment.head?, first = '#' := by
  intro first isFirst
  obtain ⟨rest, shape⟩ := List.head?_eq_some_iff.mp isFirst
  have isComment : (ofText text).comment = Scanning.commentOf .code text :=
    Scanning.comment_eq none text
  rw [isComment] at shape
  exact Scanning.commentOf_eq_cons (by simp) shape

theorem isFlush_comment
    (text : Text) :
    (ofText text).comment.IsFlush := by
  refine Text.isFlush_iff.mpr fun first isFirst => ?_
  rw [head?_comment text first isFirst]
  decide

/-- What begins flush is indented by what is put in front of it. -/
theorem indentation_indented
    (text : Text)
    {below : Text}
    (flush : below.IsFlush) :
    Text.indentation ((ofText text).indentation ++ below) = (ofText text).indentation := by
  have indents : ∀ character ∈ (ofText text).indentation, isIndentChar character = true :=
    fun _ member => List.mem_takeWhile_imp member
  have noIndent : Text.indentation below = [] := by
    have parts := Text.indentation_append_dropIndentation below
    rw [flush] at parts
    simpa using parts
  rw [Text.indentation, List.takeWhile_append_of_pos indents, ← Text.indentation, noIndent,
    List.append_nil]

/-- Code that begins flush is indented as the line it is put on. -/
theorem indentation_withCode
    (text : Text)
    {code : Text}
    (flush : code.IsFlush) :
    Text.indentation ((ofText text).withCode code) = (ofText text).indentation := by
  rw [withCode, List.append_assoc]
  exact indentation_indented text (flush.append fun _ => isFlush_comment text)

theorem indentation_eq
    (text : Text) :
    Text.indentation text = (ofText text).indentation := by
  have same := indentation_withCode text (dropIndentation_code text)
  rwa [withCode_code] at same

theorem lastVisible_indented
    (text code : Text) :
    Text.lastVisible ((ofText text).indentation ++ code) = code.lastVisible := by
  have none : (ofText text).indentation.lastVisible = none := by
    refine List.find?_eq_none.mpr fun character member => ?_
    have indents := List.mem_takeWhile_imp (List.mem_reverse.mp member)
    simp [indents]
  rw [Text.lastVisible_append, none, Option.or_none]

/-- The edited line has the indentation, the comment and the backslash of the line. -/
theorem scan_of_edits
    {text code : Text}
    (alike : ScannedAlike (ofText text).code code)
    (bordered : BorderedAlike (ofText text).code code)
    (legible : Scanning.code.isLegible (ofText text).code = true) :
    Text.indentation ((ofText text).withCode code) = Text.indentation text ∧
      (Scan.line none ((ofText text).withCode code)).comment = (Scan.line none text).comment ∧
      (Scan.line none ((ofText text).withCode code)).delta = (Scan.line none text).delta ∧
      (Scan.line none ((ofText text).withCode code)).openString =
        (Scan.line none text).openString ∧
      (Scan.line none ((ofText text).withCode code)).backslash =
        (Scan.line none text).backslash := by
  refine ⟨?_, ?_, ?_, ?_, ?_⟩
  · rw [indentation_withCode text (bordered.flush (dropIndentation_code text)), indentation_eq]
  · rw [scan_withCode legible alike]
  · rw [scan_withCode legible alike]
  · rw [scan_withCode legible alike]
  · rw [scan_withCode legible alike, Scan.backslash_eq, Scan.backslash_eq, code_line,
      lastVisible_indented, lastVisible_indented, bordered.backslash]

end LineParts

/-- A line that hands on nothing, with the given indentation. -/
structure HandsOnNothing
    (indentation line : Text) :
    Prop where
  indentation : line.indentation = indentation
  delta : (Scan.line none line).delta = 0
  openString : (Scan.line none line).openString = none
  comment : (Scan.line none line).comment = []
  backslash : (Scan.line none line).backslash = false

/-- An annotation begins with its sign and ends in no backslash. -/
theorem ExportForm.IsMark.isTidy
    {arguments : List Text}
    {mark : Text}
    (isMark : IsMark arguments mark) :
    mark.IsFlush ∧ EndsTidily mark := by
  have sign : isIndentChar '@' = false := by
    decide
  have flush {text : Text} (begins : text.head? = some '@') : text.IsFlush := by
    refine Text.isFlush_iff.mpr fun first isFirst => ?_
    obtain rfl : '@' = first := Option.some.inj (begins.symm.trans isFirst)
    exact sign
  cases isMark with
  | bare named =>
      exact ⟨flush named.sign, endsTidily_of_plain named.plain (List.mem_of_head? named.sign) sign⟩
  | list named _ =>
      refine ⟨flush ?_, endsTidily_concat _ (by decide) (by decide)⟩
      simp [withArguments, List.head?_append, named.sign]

/-- An annotation on a line of its own hands on nothing. -/
theorem handsOnNothing_of_isMark
    {arguments : List Text}
    (good : ∀ argument ∈ arguments, IsClosed argument ∧ ReadsInCode argument)
    {mark : Text}
    (isMark : ExportForm.IsMark arguments mark)
    (text : Text) :
    HandsOnNothing text.indentation ((LineParts.ofText text).indentation ++ mark) := by
  have part := isMark.isCodePart good
  obtain ⟨flush, ends⟩ := isMark.isTidy
  have scanned := LineParts.scan_indented text part
  refine ⟨?_, by rw [scanned], by rw [scanned], by rw [scanned], ?_⟩
  · rw [LineParts.indentation_indented text flush, LineParts.indentation_eq]
  · obtain ⟨last, isLast, other⟩ := ends
    rw [scanned, Scan.backslash_eq, LineParts.lastVisible_indented, isLast]
    simp [other]

/-! ## Reading on -/

/--
Lines that can take the place of a line: they are scanned as if each stood
alone, the last one hands on what the line did, and those above it nothing.
-/
structure ReadsOnFrom
    (text : Text)
    (lines : List Text) :
    Prop where
  alone : (Reading.lines .neutral lines).map (·.scan) = lines.map (Scan.line none)
  delta : (lines.map fun line => (Scan.line none line).delta).sum = (Scan.line none text).delta
  openString : ∀ line ∈ lines, (Scan.line none line).openString = none
  parts : ∃ earlier last, lines = earlier ++ [last] ∧
    (∀ line ∈ earlier, HandsOnNothing text.indentation line) ∧
    last.indentation = text.indentation ∧
    (Scan.line none last).comment = (Scan.line none text).comment ∧
    (Scan.line none last).backslash = (Scan.line none text).backslash
  below : ∀ later, (Reading.lines .neutral (lines ++ later)).drop lines.length =
    (Reading.lines .neutral (text :: later)).drop 1

/-- Lines that hand on nothing are passed in a neutral state. -/
theorem lines_append_of_handsOnNothing
    {indentation : Text}
    {earlier : List Text}
    (nothing : ∀ line ∈ earlier, HandsOnNothing indentation line)
    (rest : List Text) :
    Reading.lines .neutral (earlier ++ rest) =
      earlier.map (fun line => ⟨.neutral, Scan.line none line, .neutral⟩) ++
        Reading.lines .neutral rest := by
  induction earlier with
  | nil =>
      rfl
  | cons line others inductionHypothesis =>
      obtain ⟨own, othersNothing⟩ := List.forall_mem_cons.mp nothing
      have neutral : Carry.neutral.after (Scan.line none line) = .neutral := by
        simp [Carry.after, Carry.neutral, own.openString, own.delta, own.backslash]
      rw [List.cons_append, Reading.lines]
      dsimp only [Carry.neutral] at neutral ⊢
      rw [neutral]
      exact congrArg _ (inductionHypothesis othersNothing)

/--
On a line without three quotation marks in a row every rule but the one for
suspensions is neutral: the lines it returns can take the place of the line.
-/
theorem UpliftRule.readsOnFrom_of_apply
    {rule : UpliftRule}
    (notSuspension : rule ≠ .suspension)
    {above text : Text}
    (free : HasNoTriple text)
    {replacement : Replacement}
    (matched : rule.apply above text = some replacement) :
    ReadsOnFrom text replacement.lines := by
  obtain ⟨marks, code, shape, edits, annotates⟩ := exists_uplifted matched
  have legible := LineParts.isLegible_code free.pairsMarks
  have alike := edits.scannedAlike (buildsParts notSuspension) legible
  have bordered := edits.borderedAlike (buildsTidily notSuspension)
  obtain ⟨sameIndentation, sameComment, sameDelta, sameString, sameBackslash⟩ :=
    LineParts.scan_of_edits alike bordered legible
  generalize isLast : (LineParts.ofText text).withCode code = last at *
  generalize isEarlier : marks.map ((LineParts.ofText text).indentation ++ ·) = earlier at shape
  have nothing : ∀ line ∈ earlier, HandsOnNothing text.indentation line := by
    rw [← isEarlier]
    refine List.forall_mem_map.mpr fun mark member => ?_
    obtain ⟨arguments, inCode, isMark⟩ := annotates mark member
    exact handsOnNothing_of_isMark (inCode.good legible) isMark text
  rw [shape]
  refine ⟨?_, ?_, ?_, ⟨earlier, last, rfl, nothing, sameIndentation, sameComment, sameBackslash⟩, ?_⟩
  · rw [lines_append_of_handsOnNothing nothing, List.map_append, List.map_map, List.map_append]
    rfl
  · have noChange : (earlier.map fun line => (Scan.line none line).delta).sum = 0 :=
      List.sum_eq_zero (List.forall_mem_map.mpr fun line member => (nothing line member).delta)
    rw [List.map_append, List.sum_append, noChange, Int.zero_add, List.map_singleton,
      List.sum_singleton, sameDelta]
  · refine List.forall_mem_append.mpr ⟨fun line member => (nothing line member).openString, ?_⟩
    exact List.forall_mem_singleton.mpr (sameString.trans free.openString)
  · intro later
    have sameAfter : Carry.neutral.after (Scan.line none last) =
        Carry.neutral.after (Scan.line none text) := by
      simp [Carry.after, sameString, sameDelta, sameBackslash]
    have passed : (earlier ++ [last]).length =
        (earlier.map fun line => (⟨.neutral, Scan.line none line, .neutral⟩ : Reading)).length + 1 := by
      simp
    rw [List.append_assoc, lines_append_of_handsOnNothing nothing, passed, List.drop_length_add_append]
    exact congrArg (Reading.lines · later) sameAfter

/-- A field whose value is open at the end of the line leaves it open below its annotation. -/
theorem open_field_reads_on :
    let text := "\texport(String, \"a(\", 'b]') onready var x = f( # (".toList
    HasNoTriple text ∧ ReadsOnFrom text
      ["\t@export_enum(\"a(\", 'b]')".toList, "\tonready var x: String = f( # (".toList] := by
  have free : HasNoTriple "\texport(String, \"a(\", 'b]') onready var x = f( # (".toList :=
    ⟨by decide +kernel, by decide +kernel⟩
  refine ⟨free, ?_⟩
  exact @UpliftRule.readsOnFrom_of_apply .exportedField (by decide) []
    "\texport(String, \"a(\", 'b]') onready var x = f( # (".toList free
    ⟨"\t@export_enum(\"a(\", 'b]')".toList, ["\tonready var x: String = f( # (".toList], 1⟩
    (by decide +kernel)

end ScriptUplift
