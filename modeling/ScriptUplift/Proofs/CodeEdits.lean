import Mathlib.Data.List.Basic
import Mathlib.Logic.Relation
import Mathlib.Tactic.Common
import ScriptUplift.Proofs.BuiltCalls
import ScriptUplift.Proofs.ExportMarks
import ScriptUplift.Proofs.ReplacedTexts
import ScriptUplift.Proofs.StringLiterals

namespace ScriptUplift

/-!
# What rules change in a piece of code

Every rule changes the code of a line by edits that stand outside of string
literals.  An edit puts words in the place of words, or what is built from the
arguments of a call in the place of the call.  Literals outside of the brackets
of these calls are left alone.
-/

theorem all_isPlainChar_of_indent
    {text : Text}
    (indents : text.all isIndentChar = true) :
    text.all isPlainChar = true :=
  all_isPlainChar_of_class (by decide) indents

/-- Words and what may stand between them: nothing opens, closes, parts or hides anything. -/
structure IsWording
    (text : Text) :
    Prop where
  letters : text.any isIdentifierChar = true
  plain : text.all isPlainChar = true

namespace IsWording

theorem nonempty
    {text : Text}
    (words : IsWording text) :
    text ≠ [] := by
  rintro rfl
  cases words.letters

theorem append
    {first second : Text}
    (firstWords : IsWording first)
    (secondPlain : second.all isPlainChar = true) :
    IsWording (first ++ second) where
  letters := by
    rw [List.any_append, firstWords.letters]
    rfl
  plain := by
    rw [List.all_append, firstWords.plain, secondPlain]
    rfl

theorem prepend
    {first second : Text}
    (firstPlain : first.all isPlainChar = true)
    (secondWords : IsWording second) :
    IsWording (first ++ second) where
  letters := by
    rw [List.any_append, secondWords.letters, Bool.or_true]
  plain := by
    rw [List.all_append, secondWords.plain, firstPlain]
    rfl

theorem ofWord
    {word : Text}
    (someLetter : word ≠ [])
    (letters : word.all isIdentifierChar = true) :
    IsWording word where
  letters := by
    obtain ⟨letter, member⟩ := List.exists_mem_of_ne_nil word someLetter
    exact List.any_eq_true.mpr ⟨letter, member, List.all_eq_true.mp letters letter member⟩
  plain := all_isPlainChar_of_word letters

end IsWording

/-- A text that does not begin with indentation. -/
def Text.IsFlush
    (text : Text) :
    Prop :=
  text.dropIndentation = text

theorem Text.isFlush_iff
    {text : Text} :
    text.IsFlush ↔ ∀ first ∈ text.head?, isIndentChar first = false := by
  cases text with
  | nil =>
      exact ⟨fun _ => nofun, fun _ => rfl⟩
  | cons character rest =>
      constructor
      · intro flush first isFirst
        obtain rfl : character = first := Option.some.inj isFirst
        rw [Bool.eq_false_iff]
        intro indents
        have shorter := congrArg List.length flush
        have bound := Text.length_dropIndentation_le rest
        rw [dropIndentation, List.dropWhile_cons_of_pos indents, List.length_cons] at shorter
        unfold dropIndentation at bound
        omega
      · intro visible
        exact List.dropWhile_cons_of_neg (by simp [visible character rfl])

theorem Text.IsFlush.append
    {first : Text}
    (flush : first.IsFlush)
    {second : Text}
    (secondFlush : first = [] → second.IsFlush) :
    Text.IsFlush (first ++ second) := by
  cases first with
  | nil =>
      exact secondFlush rfl
  | cons character rest =>
      have visible := Text.isFlush_iff.mp flush character rfl
      exact List.dropWhile_cons_of_neg (by simp [visible])

/-- A word begins with a letter. -/
theorem Text.isFlush_of_word
    {word : Text}
    (letters : word.all isIdentifierChar = true) :
    word.IsFlush :=
  Text.isFlush_iff.mpr fun first isFirst =>
    isIndentChar_of_isIdentifierChar (List.all_eq_true.mp letters first (List.mem_of_head? isFirst))

theorem Text.isFlush_dropIndentation
    (text : Text) :
    text.dropIndentation.IsFlush :=
  List.dropWhile_idempotent _ _

/-- The text of a call with these pieces between its commas, behind blanks or not. -/
structure SpacedCall
    (callee : Text)
    (pieces : List Text)
    (text : Text) :
    Prop where
  named : IsWording callee
  closed : ∀ piece ∈ pieces, IsClosed piece
  shape : ∃ (gap : Text) (closing : Char),
    gap.all isIndentChar = true ∧ isClosingBracket closing = true ∧
      text = callee ++ (gap ++ '(' :: (Text.joinWith [','] pieces ++ [closing]))

/--
One change of a piece of code.  What stands above it leaves no string open, and
what it takes out has no quotation marks but in the arguments of a call.
-/
inductive Edit
    (callee : Text)
    (build : List Text → Option Text) :
    Text → Text → Prop
  | words {above old new rest : Text}
      (outside : Quoting.outside.through above = .outside)
      (oldWords : IsWording old)
      (newWords : IsWording new)
      (newFlush : new.IsFlush) :
      Edit callee build (above ++ (old ++ rest)) (above ++ (new ++ rest))
  | call {above old new rest : Text} {pieces : List Text}
      (outside : Quoting.outside.through above = .outside)
      (called : SpacedCall callee pieces old)
      (built : build (argumentsOf pieces) = some new) :
      Edit callee build (above ++ (old ++ rest)) (above ++ (new ++ rest))

/-- Any number of changes of a piece of code. -/
abbrev Edits
    (callee : Text)
    (build : List Text → Option Text) :
    Text → Text → Prop :=
  Relation.ReflTransGen (Edit callee build)

theorem CallText.spacedCall
    {callee : Text}
    (name : CalleeName callee)
    {pieces : List Text}
    {text : Text}
    (called : CallText callee pieces text) :
    SpacedCall callee pieces text := by
  obtain ⟨closed, gap, closing, spaces, closes, shape⟩ := called
  have named : IsWording callee := by
    refine .ofWord ?_ name.word
    rintro rfl
    cases name.headed
  refine ⟨named, closed, gap, closing, ?_, closes, shape⟩
  rw [List.all_eq_true] at spaces ⊢
  intro character member
  rw [beq_iff_eq.mp (spaces character member)]
  decide

/-- Replacing calls is a chain of edits. -/
theorem edits_replaceCallsFrom
    {callee : Text}
    (name : CalleeName callee)
    (build : List Text → Option Text)
    (limit rank : Nat)
    (code : Text) :
    Edits callee build code (replaceCallsFrom callee build limit rank code).1 := by
  refine replaceCallsFrom_preserves name (Edits callee build code) ?_ limit rank .refl
  intro above old rest pieces new apart called built edited
  exact edited.tail (.call apart.outside (called.spacedCall name) built)

/-! ## Words at the front -/

/-- The first word of a text, with what is around it. -/
theorem firstWord_parts
    (text : Text) :
    text = text.indentation ++ ((firstWord text).1 ++ (firstWord text).2) := by
  conv_lhs => rw [← Text.indentation_append_dropIndentation text]
  exact congrArg (text.indentation ++ ·) List.takeWhile_append_dropWhile.symm

theorem Text.IsFlush.firstWord_parts
    {text : Text}
    (flush : text.IsFlush) :
    text = (firstWord text).1 ++ (firstWord text).2 :=
  flush.symm.trans List.takeWhile_append_dropWhile.symm

theorem all_isPlainChar_indentation
    (text : Text) :
    text.indentation.all isPlainChar = true :=
  all_isPlainChar_of_indent (List.all_eq_true.mpr fun _ member => List.mem_takeWhile_imp member)

theorem isIdentifierChar_firstWord
    (text : Text) :
    (firstWord text).1.all isIdentifierChar = true :=
  List.all_takeWhile

section

variable {callee : Text} {build : List Text → Option Text}

/-- Words at the front of a piece of code change to other words. -/
theorem Edit.front
    {old new : Text}
    (oldWords : IsWording old)
    (newWords : IsWording new)
    (newFlush : new.IsFlush)
    (rest : Text) :
    Edit callee build (old ++ rest) (new ++ rest) :=
  @Edit.words callee build [] old new rest rfl oldWords newWords newFlush

/-- What stands in front of a declaration can change, as the declaration begins with a word. -/
theorem Edit.lead
    {old new : Text}
    (oldPlain : old.all isPlainChar = true)
    (newPlain : new.all isPlainChar = true)
    (newFlush : new.IsFlush)
    {declaration : Text}
    (flush : declaration.IsFlush)
    (someWord : (firstWord declaration).1 ≠ []) :
    Edit callee build (old ++ declaration) (new ++ declaration) := by
  have word : IsWording (firstWord declaration).1 :=
    .ofWord someWord (isIdentifierChar_firstWord declaration)
  have parts (front : Text) : front ++ declaration =
      (front ++ (firstWord declaration).1) ++ (firstWord declaration).2 := by
    conv_lhs => rw [flush.firstWord_parts]
    exact (List.append_assoc _ _ _).symm
  rw [parts old, parts new]
  exact .front (.prepend oldPlain word) (.prepend newPlain word)
    (newFlush.append fun _ => Text.isFlush_of_word (isIdentifierChar_firstWord declaration)) _

/-- A type is added behind the name of a declaration, or nothing is. -/
theorem edits_withDeclaredType
    {mark : Text}
    (markPlain : mark.all isPlainChar = true)
    (markFlush : mark.IsFlush)
    (declaration : Text)
    {type : Text}
    (typePlain : type.all isPlainChar = true) :
    Edits callee build (mark ++ declaration) (mark ++ withDeclaredType declaration type) := by
  unfold withDeclaredType
  dsimp only
  split
  · exact .refl
  · split
    · exact .refl
    · rename_i named
      have someName : (firstWord (firstWord declaration).2).1 ≠ [] := by
        rintro noName
        rw [noName] at named
        exact named rfl
      generalize isName : (firstWord (firstWord declaration).2).1 = name at someName
      generalize isRest : (firstWord (firstWord declaration).2).2 = rest
      have nameWords : IsWording name := by
        rw [← isName] at someName ⊢
        exact .ofWord someName (isIdentifierChar_firstWord _)
      have shape : mark ++ declaration =
          (mark ++ (declaration.indentation ++ ((firstWord declaration).1 ++
            ((firstWord declaration).2.indentation ++ name)))) ++ rest := by
        conv_lhs => rw [firstWord_parts declaration, firstWord_parts (firstWord declaration).2,
          isName, isRest]
        simp only [List.append_assoc]
      have target : mark ++ ("var ".toList ++ name ++ ": ".toList ++ type ++ rest) =
          (mark ++ ("var ".toList ++ (name ++ (": ".toList ++ type)))) ++ rest := by
        simp only [List.append_assoc]
      have flush : Text.IsFlush (mark ++ ("var ".toList ++ (name ++ (": ".toList ++ type)))) :=
        markFlush.append fun _ => .append (rfl : Text.IsFlush "var ".toList) nofun
      have typed : (": ".toList ++ type).all isPlainChar = true := by
        rw [List.all_append, typePlain]
        rfl
      rw [shape, target]
      refine .single (.front (.prepend markPlain (.prepend (all_isPlainChar_indentation _)
        (.prepend (all_isPlainChar_of_word (isIdentifierChar_firstWord _))
          (.prepend (all_isPlainChar_indentation _) nameWords))))
        (.prepend markPlain (.prepend (by decide) (nameWords.append typed))) flush rest)

/-! ## Stuttered callees -/

theorem take_collapsed
    {calls : List Call}
    {code : Text}
    {position : Nat}
    (behind : ∀ call ∈ calls, position ≤ call.start)
    (inside : position ≤ code.length) :
    (collapsed calls code).take position = code.take position := by
  induction calls with
  | nil =>
      rfl
  | cons call rest inductionHypothesis =>
      obtain ⟨own, others⟩ := List.forall_mem_cons.mp behind
      have kept := le_length_collapsed others inside
      have step : collapsed (call :: rest) code =
          (collapsed rest code).take call.start ++ ("preload".toList ++
            (collapsed rest code).drop (call.start + call.name.length)) := by
        simp [collapsed]
      rw [step, List.take_append_of_le_length (by rw [List.length_take]; omega), List.take_take,
        Nat.min_eq_left own, inductionHypothesis others]

/-- Every collapsed callee is one word in the place of another. -/
theorem edits_collapsed
    {calls : List Call}
    {code : Text}
    (words : ∀ call ∈ calls, call.name ≠ [] ∧
      ∃ token ∈ identifiers code, token.text = call.name ∧ token.start = call.start)
    (apart : calls.Pairwise fun earlier later => earlier.start + earlier.name.length ≤ later.start) :
    Edits callee build code (collapsed calls code) := by
  induction calls with
  | nil =>
      exact .refl
  | cons call rest inductionHypothesis =>
      obtain ⟨⟨someName, token, isToken, sameName, sameStart⟩, others⟩ :=
        List.forall_mem_cons.mp words
      obtain ⟨behind, restApart⟩ := List.pairwise_cons.mp apart
      obtain ⟨above, below, shape, startsAt, outside, letters⟩ :=
        exists_word_of_mem_identifiers isToken
      rw [sameStart] at startsAt
      rw [sameName] at shape letters
      -- The calls behind are collapsed first, so that this one still stands where it was found.
      have inside : call.start + call.name.length ≤ code.length := by
        rw [shape, startsAt, List.length_append, List.length_append]
        omega
      have front := take_collapsed behind inside
      rw [shape, startsAt, List.take_length_add_append, List.take_left, ← shape, ← startsAt] at front
      generalize isResult : collapsed rest code = result at front
      have parts : result = above ++ (call.name ++ result.drop (call.start + call.name.length)) := by
        conv_lhs => rw [← List.take_append_drop (call.start + call.name.length) result, front]
        exact List.append_assoc _ _ _
      have isAbove : result.take call.start = above := by
        rw [parts, startsAt, List.take_left]
      have step : collapsed (call :: rest) code = above ++ ("preload".toList ++
          result.drop (call.start + call.name.length)) := by
        rw [← isAbove, ← isResult]
        simp [collapsed]
      have edited := inductionHypothesis others restApart
      rw [isResult, parts] at edited
      rw [step]
      exact edited.tail (.words outside (.ofWord someName letters) ⟨by decide, by decide⟩ rfl)

theorem edits_collapsed_preloads
    (code : Text) :
    Edits callee build code (collapsed (Call.findAll isRepeatedPreload code) code) := by
  refine edits_collapsed (fun call member => ?_) (Call.pairwise_findAll _ _)
  obtain ⟨token, isToken, found⟩ := List.mem_filterMap.mp member
  obtain ⟨sameName, sameStart, _⟩ := Call.placed_of_ofToken? found
  have long := length_of_isRepeatedPreload (Call.placed_of_mem_findAll member).1
  refine ⟨?_, token, List.mem_of_mem_filter isToken, sameName.symm, sameStart.symm⟩
  rintro noName
  rw [noName] at long
  cases long

end

/-! ## Legacy exports -/

/-- Arguments of a call that stands in a piece of code outside of strings, or none. -/
def ArgumentsIn
    (callee code : Text)
    (arguments : List Text) :
    Prop :=
  arguments = [] ∨ ∃ above old rest pieces, code = above ++ (old ++ rest) ∧
    Quoting.outside.through above = .outside ∧ SpacedCall callee pieces old ∧
      arguments = argumentsOf pieces

namespace LegacyExport

/-- The word that legacy exports are written with. -/
def word : Text :=
  "export".toList

/-- A legacy export makes place for its declaration. -/
def build (_ : List Text) : Option Text :=
  some word

/-- The declaration is reached over words, whether it is deferred or not. -/
theorem exists_words_of_tail
    (deferred : Bool)
    {tail : Text}
    (flush : tail.IsFlush) :
    ∃ words declaration : Text, words.all isPlainChar = true ∧ declaration.IsFlush ∧
      tail = words ++ declaration ∧
      declaration = if ((firstWord tail).1 == "onready".toList && deferred) = true
        then (firstWord tail).2.dropIndentation else tail := by
  split
  · refine ⟨(firstWord tail).1 ++ (firstWord tail).2.indentation, _, ?_,
      (firstWord tail).2.isFlush_dropIndentation, ?_, rfl⟩
    · simp only [List.all_append, all_isPlainChar_indentation,
        all_isPlainChar_of_word (isIdentifierChar_firstWord tail), Bool.and_self]
    · conv_lhs => rw [flush.firstWord_parts,
        ← Text.indentation_append_dropIndentation (firstWord tail).2]
      simp only [List.append_assoc]
  · exact ⟨[], tail, rfl, flush, rfl, rfl⟩

/-- The words in front of the list of a legacy export. -/
theorem exists_lead
    {code : Text}
    (flush : code.IsFlush)
    {start : Text × Text}
    (isStart : (if ((firstWord code).1 == "onready".toList) = true then firstWord (firstWord code).2
      else ((firstWord code).1, (firstWord code).2)) = start) :
    ∃ lead : Text, lead.all isPlainChar = true ∧ code = lead ++ (start.1 ++ start.2) := by
  subst isStart
  split
  · refine ⟨(firstWord code).1 ++ (firstWord code).2.indentation, ?_, ?_⟩
    · simp only [List.all_append, all_isPlainChar_indentation,
        all_isPlainChar_of_word (isIdentifierChar_firstWord code), Bool.and_self]
    · conv_lhs => rw [flush.firstWord_parts, firstWord_parts (firstWord code).2]
      simp only [List.append_assoc]
  · exact ⟨[], rfl, flush.firstWord_parts⟩

/-- The list behind the word of a legacy export. -/
theorem exists_list
    {text : Text}
    (opens : text.startsWith ['('] = true)
    {closeAt : Nat}
    (closes : closingIndex text 0 = some closeAt) :
    ∃ pieces closing rest, (∀ piece ∈ pieces, IsClosed piece) ∧ isClosingBracket closing = true ∧
      text = '(' :: (Text.joinWith [','] pieces ++ closing :: rest) ∧
      splitArguments ((text.take closeAt).drop 1) = argumentsOf pieces ∧
      text.drop (closeAt + 1) = rest := by
  obtain ⟨body, rfl⟩ := List.isPrefixOf_iff_prefix.mp opens
  obtain ⟨pieces, closing, rest, closed, isClosing, rfl, rfl, split⟩ :=
    exists_pieces_of_closingIndex (by decide : isOpeningBracket '(' = true)
      (rfl : List.drop 0 (['('] ++ body) = '(' :: body) closes
  refine ⟨pieces, closing, rest, closed, isClosing, rfl, ?_, ?_⟩
  · rw [Nat.zero_add, Nat.add_comm, List.singleton_append, List.take_succ_cons,
      List.drop_succ_cons, List.drop_zero, List.take_left, split]
  · rw [List.singleton_append, List.drop_succ_cons, Nat.zero_add, Nat.add_comm, ← List.drop_drop,
      List.drop_left]
    rfl

/-- Whatever stood in brackets is gone, the declaration follows the word, blanks and words. -/
theorem edit_of_declaration
    {lead : Text}
    (leadPlain : lead.all isPlainChar = true)
    {mark : Text}
    (markPlain : mark.all isPlainChar = true)
    (markFlush : mark.IsFlush)
    (deferred : Bool)
    {blanks tail : Text}
    (blanksPlain : blanks.all isPlainChar = true)
    (flush : tail.IsFlush)
    (declares : (firstWord (if ((firstWord tail).1 == "onready".toList && deferred) = true
      then (firstWord tail).2.dropIndentation else tail)).1 = "var".toList) :
    Edit word build (lead ++ (word ++ (blanks ++ tail)))
      (mark ++ (if ((firstWord tail).1 == "onready".toList && deferred) = true
        then (firstWord tail).2.dropIndentation else tail)) := by
  obtain ⟨words, declaration, wordsPlain, declarationFlush, isTail, isDeclaration⟩ :=
    exists_words_of_tail deferred flush
  rw [← isDeclaration] at declares ⊢
  have wordPlain : word.all isPlainChar = true := by
    decide
  have front : lead ++ (word ++ (blanks ++ tail)) =
      (lead ++ (word ++ (blanks ++ words))) ++ declaration := by
    rw [isTail]
    simp only [List.append_assoc]
  rw [front]
  refine .lead ?_ markPlain markFlush declarationFlush (by rw [declares]; decide)
  simp only [List.all_append, leadPlain, wordPlain, blanksPlain, wordsPlain, Bool.and_self]

/-- A legacy export leaves its declaration, and its arguments are those of a call. -/
theorem edits_of_ofCode?
    {code : Text}
    (flush : code.IsFlush)
    {legacy : LegacyExport}
    (found : ofCode? code = some legacy)
    {mark : Text}
    (markPlain : mark.all isPlainChar = true)
    (markFlush : mark.IsFlush) :
    ArgumentsIn word code legacy.arguments ∧
      Edits word build code (mark ++ legacy.declaration) := by
  obtain ⟨start, tail, isStart, isWord, hint, _, declaration, declares⟩ := ofCode?_cases found
  obtain ⟨lead, leadPlain, shape⟩ := exists_lead flush isStart
  have wordShape : code = lead ++ (word ++ (start.2.indentation ++ start.2.dropIndentation)) := by
    rw [Text.indentation_append_dropIndentation, shape, isWord]
    rfl
  rw [declaration] at declares ⊢
  generalize legacy.arguments = arguments at hint ⊢
  cases hint with
  | @listed closeAt opens closes =>
    obtain ⟨pieces, closing, rest, closed, isClosing, isRest, split, below⟩ := exists_list opens closes
    rw [below] at declares ⊢
    rw [split]
    have called : SpacedCall word pieces
        (word ++ (start.2.indentation ++ '(' :: (Text.joinWith [','] pieces ++ [closing]))) :=
      ⟨⟨by decide, by decide⟩, closed, _, closing,
        List.all_eq_true.mpr fun _ member => List.mem_takeWhile_imp member, isClosing, rfl⟩
    have parts : code = lead ++ ((word ++ (start.2.indentation ++ '(' ::
        (Text.joinWith [','] pieces ++ [closing]))) ++ rest) := by
      rw [wordShape, isRest]
      simp only [List.append_assoc, List.cons_append, List.nil_append]
    have outside : Quoting.outside.through lead = .outside :=
      (isClosed_of_plain leadPlain).through_eq
    refine ⟨.inr ⟨_, _, _, pieces, parts, outside, called, rfl⟩, ?_⟩
    have removed : Edit word build code (lead ++ (word ++ rest)) := by
      rw [parts]
      exact .call outside called rfl
    rw [← Text.indentation_append_dropIndentation rest] at removed
    exact .tail (.single removed)
      (edit_of_declaration leadPlain markPlain markFlush _ (all_isPlainChar_indentation _)
        (Text.isFlush_dropIndentation rest) declares)
  | bare =>
    have edit := edit_of_declaration leadPlain markPlain markFlush _
      (all_isPlainChar_indentation start.2) start.2.isFlush_dropIndentation declares
    rw [← wordShape] at edit
    exact ⟨.inl rfl, .single edit⟩

end LegacyExport

/-! ## Rules -/

namespace UpliftRule

/-- The word whose calls a rule replaces, if it does. -/
def callee : UpliftRule → Text
  | .exportedField =>
      LegacyExport.word
  | .connect =>
      "connect".toList
  | .disconnect =>
      "disconnect".toList
  | .isConnected =>
      "is_connected".toList
  | .emit =>
      "emit_signal".toList
  | .suspension =>
      "yield".toList
  | .toolDirective | .preloadStutter | .deferredInit =>
      []

/-- What a rule puts in the place of a call on its line. -/
def build : UpliftRule → List Text → Option Text
  | .exportedField =>
      LegacyExport.build
  | .connect =>
      rebuiltSignalCall? "connect" true
  | .disconnect =>
      rebuiltSignalCall? "disconnect" false
  | .isConnected =>
      rebuiltSignalCall? "is_connected" false
  | .emit =>
      emitCall?
  | .suspension =>
      awaitExpression?
  | .toolDirective | .preloadStutter | .deferredInit =>
      fun _ => none

end UpliftRule

/--
The lines that take the place of a line: annotations made of the arguments of a
call on it, and the line with its code changed by edits.
-/
structure Uplifted
    (callee : Text)
    (build : List Text → Option Text)
    (text : Text)
    (marks : List Text)
    (code : Text)
    (lines : List Text) :
    Prop where
  shape : lines = marks.map ((LineParts.ofText text).indentation ++ ·) ++
    [(LineParts.ofText text).withCode code]
  edits : Edits callee build (LineParts.ofText text).code code
  annotates : ∀ mark ∈ marks, ∃ arguments, ArgumentsIn callee (LineParts.ofText text).code arguments ∧
    ExportForm.IsMark arguments mark

theorem Uplifted.alone
    {callee : Text}
    {build : List Text → Option Text}
    {text code : Text}
    (edits : Edits callee build (LineParts.ofText text).code code) :
    Uplifted callee build text [] code [(LineParts.ofText text).withCode code] :=
  ⟨rfl, edits, nofun⟩

theorem Text.dropEndIndentation_prefix
    (text : Text) :
    text.dropEndIndentation <+: text := by
  simpa [dropEndIndentation, dropEndWhile] using
    List.reverse_prefix.mpr (List.dropWhile_suffix isIndentChar : _ <:+ text.reverse)

/-- A directive is the only word on its line. -/
theorem isWording_of_trim
    {code : Text}
    {word : Text}
    (isWord : code.trim = word)
    (letters : word.all isIdentifierChar = true)
    (someLetter : word ≠ []) :
    IsWording code.dropEndIndentation := by
  obtain ⟨front, back, frontBlank, backBlank, shape⟩ := code.exists_trim
  rw [isWord] at shape
  constructor
  · obtain ⟨letter, inWord⟩ := List.exists_mem_of_ne_nil word someLetter
    have isLetter := List.all_eq_true.mp letters letter inWord
    refine List.any_eq_true.mpr ⟨letter, ?_, isLetter⟩
    have inCode : letter ∈ code.reverse.takeWhile isIndentChar ++
        code.reverse.dropWhile isIndentChar := by
      rw [List.takeWhile_append_dropWhile, List.mem_reverse, shape]
      simp [inWord]
    rcases List.mem_append.mp inCode with isDropped | isKept
    · have indents := List.mem_takeWhile_imp isDropped
      rw [isIndentChar_of_isIdentifierChar isLetter] at indents
      cases indents
    · exact List.mem_reverse.mpr isKept
  · have plain : code.all isPlainChar = true := by
      rw [shape]
      simp only [List.all_append, all_isPlainChar_of_blank frontBlank, all_isPlainChar_of_word letters,
        all_isPlainChar_of_blank backBlank, Bool.and_self]
    rw [List.all_eq_true] at plain ⊢
    exact fun character member => plain character (code.dropEndIndentation_prefix.subset member)

theorem uplifted_toolDirective
    {callee : Text}
    {build : List Text → Option Text}
    {text : Text}
    {replacement : Replacement}
    (matched : upliftToolDirective text = some replacement) :
    ∃ code, Uplifted callee build text [] code replacement.lines := by
  obtain ⟨isTool, rfl⟩ := upliftToolDirective_eq_some matched
  refine ⟨_, .alone ?_⟩
  have front : (LineParts.ofText text).code =
      (LineParts.ofText text).code.dropEndIndentation ++ (LineParts.ofText text).trailing :=
    List.prefix_iff_eq_append.mp (Text.dropEndIndentation_prefix _) |>.symm
  conv_lhs => rw [front]
  exact .single (.front (isWording_of_trim isTool (by decide) (by decide)) ⟨by decide, by decide⟩
    (rfl : Text.IsFlush "@tool".toList) _)

theorem uplifted_preloads
    {callee : Text}
    {build : List Text → Option Text}
    {text : Text}
    {replacement : Replacement}
    (matched : upliftPreloads text = some replacement) :
    ∃ code, Uplifted callee build text [] code replacement.lines := by
  obtain ⟨_, rfl⟩ := upliftPreloads_eq_some matched
  exact ⟨_, .alone (edits_collapsed_preloads _)⟩

theorem uplifted_deferredInit
    {callee : Text}
    {build : List Text → Option Text}
    {above text : Text}
    {replacement : Replacement}
    (matched : upliftDeferredInit above text = some replacement) :
    ∃ marks code, Uplifted callee build text marks code replacement.lines := by
  obtain ⟨_, declares, shape⟩ := upliftDeferredInit_eq_some matched
  have edits : Edits callee build (LineParts.ofText text).code
      (firstWord (LineParts.ofText text).code).2.dropIndentation := by
    have parts : (LineParts.ofText text).code =
        ((LineParts.ofText text).code.indentation ++ ((firstWord (LineParts.ofText text).code).1 ++
          (firstWord (LineParts.ofText text).code).2.indentation)) ++
            (firstWord (LineParts.ofText text).code).2.dropIndentation := by
      conv_lhs => rw [firstWord_parts (LineParts.ofText text).code,
        ← Text.indentation_append_dropIndentation (firstWord (LineParts.ofText text).code).2]
      simp only [List.append_assoc]
    conv_lhs => rw [parts]
    refine .single (.lead ?_ (rfl : List.all [] isPlainChar = true) rfl
      (Text.isFlush_dropIndentation _) ?_)
    · simp only [List.all_append, all_isPlainChar_indentation,
        all_isPlainChar_of_word (isIdentifierChar_firstWord _), Bool.and_self]
    · rw [declares]
      decide
  rcases shape with rfl | rfl
  · exact ⟨[], _, .alone edits⟩
  · refine ⟨["@onready".toList], _, rfl, edits, List.forall_mem_singleton.mpr ?_⟩
    exact ⟨[], .inl rfl, .bare (by decide)⟩

theorem uplifted_exportedField
    {above text : Text}
    {replacement : Replacement}
    (matched : upliftExportedField above text = some replacement) :
    ∃ marks code, Uplifted LegacyExport.word LegacyExport.build text marks code
      replacement.lines := by
  obtain ⟨legacy, found, shape⟩ := upliftExportedField_eq_some matched
  have flush := LineParts.dropIndentation_code text
  have deferredPlain : List.all (if legacy.onready = true then "onready ".toList else [])
      isPlainChar = true := by
    split <;> decide
  have deferredFlush : Text.IsFlush (if legacy.onready = true then "onready ".toList else []) := by
    split <;> rfl
  obtain ⟨arguments, edits⟩ :=
    LegacyExport.edits_of_ofCode? flush found deferredPlain deferredFlush
  rcases shape with rfl | rfl
  · exact ⟨[], _, .alone edits⟩
  · refine ⟨[(ExportForm.ofArguments legacy.arguments).mark], _, rfl, edits.trans ?_,
      List.forall_mem_singleton.mpr ⟨_, arguments, ExportForm.isMark_ofArguments _⟩⟩
    exact edits_withDeclaredType deferredPlain deferredFlush _ (ExportForm.isPlain_type_ofArguments _)

theorem uplifted_replaceCalls
    {callee : String}
    (name : CalleeName callee.toList)
    {build : List Text → Option Text}
    {text : Text}
    {replacement : Replacement}
    (matched : replaceCalls callee build text = some replacement) :
    ∃ code, Uplifted callee.toList build text [] code replacement.lines := by
  obtain ⟨_, rfl⟩ := replaceCalls_eq_some matched
  exact ⟨_, .alone (edits_replaceCallsFrom name build _ _ _)⟩

/-- A rule replaces a line by annotations and the edited line. -/
theorem UpliftRule.exists_uplifted
    {rule : UpliftRule}
    {above text : Text}
    {replacement : Replacement}
    (matched : rule.apply above text = some replacement) :
    ∃ marks code, Uplifted rule.callee rule.build text marks code replacement.lines := by
  cases rule with
  | toolDirective =>
      exact ⟨[], uplifted_toolDirective matched⟩
  | preloadStutter =>
      exact ⟨[], uplifted_preloads matched⟩
  | exportedField =>
      exact uplifted_exportedField matched
  | deferredInit =>
      exact uplifted_deferredInit matched
  | connect =>
      exact ⟨[], uplifted_replaceCalls ReplacesCalls.connect.calleeName matched⟩
  | disconnect =>
      exact ⟨[], uplifted_replaceCalls ReplacesCalls.disconnect.calleeName matched⟩
  | isConnected =>
      exact ⟨[], uplifted_replaceCalls ReplacesCalls.isConnected.calleeName matched⟩
  | emit =>
      exact ⟨[], uplifted_replaceCalls ReplacesCalls.emit.calleeName matched⟩
  | suspension =>
      exact ⟨[], uplifted_replaceCalls ReplacesCalls.suspension.calleeName matched⟩

/-! ## String literals -/

/--
If no mark stands alone in a string with three marks of its kind, the search for
words shows of a line what stands outside of its string literals.  So words and
calls are found outside of them, and a rule changes words and calls that stand
outside of them: of the literals of the line it touches those only that stand
between the brackets of a call it replaces.
-/
theorem literals_stand
    {text : Text}
    (pairs : Scanning.code.pairsMarks text = true) :
    let code := (Scan.line none text).code
    (∀ index, OutsideLiterals code index ↔
        ∃ character, (maskStrings code)[index]? = some character ∧
          isQuoteMark character = false) ∧
      (∀ token ∈ identifiers code, ∀ index, token.start ≤ index → index < token.stop →
        OutsideLiterals code index) ∧
      (∀ callee?, ∀ call ∈ Call.findAll callee? code,
        (∀ index, call.start ≤ index → index < call.start + call.name.length →
          OutsideLiterals code index) ∧
        OutsideLiterals code call.openAt ∧ OutsideLiterals code call.closeAt) ∧
      ∀ (rule : UpliftRule) (above : Text) (replacement : Replacement),
        rule.apply above text = some replacement →
          ∃ marks newCode, Uplifted rule.callee rule.build text marks newCode replacement.lines := by
  have legible := isLegible_code pairs
  refine ⟨fun index => outsideLiterals_iff legible index, ?_, ?_, ?_⟩
  · exact fun token member index behind before =>
      identifier_outsideLiterals legible member behind before
  · exact fun callee? call member => call_outsideLiterals legible member
  · exact fun rule above replacement matched => UpliftRule.exists_uplifted matched

/-- Strings with three marks of the one kind may hold marks of the other, and pairs of their own. -/
theorem literals_stand_in_emission :
    let text := "print('''it\"s''', emit_signal(\"x\", \"\"\"a\"\"\")) # \"\"\"\"".toList
    let code := (Scan.line none text).code
    Scanning.code.pairsMarks text = true ∧
      (∀ token ∈ identifiers code, ∀ index, token.start ≤ index → index < token.stop →
        OutsideLiterals code index) ∧
      ∃ marks newCode, Uplifted UpliftRule.emit.callee UpliftRule.emit.build text marks newCode
        ["print('''it\"s''', x.emit(\"\"\"a\"\"\")) # \"\"\"\"".toList] := by
  have read := @literals_stand
    "print('''it\"s''', emit_signal(\"x\", \"\"\"a\"\"\")) # \"\"\"\"".toList (by decide +kernel)
  refine ⟨by decide +kernel, read.2.1, ?_⟩
  exact read.2.2.2 .emit []
    ⟨"print('''it\"s''', x.emit(\"\"\"a\"\"\")) # \"\"\"\"".toList, [], 1⟩ (by decide +kernel)

/--
Between two lone marks of a string with three such marks a word is taken for a
call outside of strings, and replaced.
-/
theorem emission_in_literal_is_replaced :
    let text := "print(\"\"\"a\" emit_signal(\"x\") \"b\"\"\")".toList
    let code := (Scan.line none text).code
    (∃ token ∈ identifiers code, token.start = 12 ∧ 12 < token.stop ∧ ¬OutsideLiterals code 12) ∧
      UpliftRule.emit.apply [] text =
        some { first := "print(\"\"\"a\" x.emit() \"b\"\"\")".toList } := by
  refine ⟨⟨⟨"emit_signal".toList, 12⟩, by decide +kernel, rfl, by decide, ?_⟩, by decide +kernel⟩
  exact fun outside => absurd outside.1 (by decide +kernel)

end ScriptUplift
