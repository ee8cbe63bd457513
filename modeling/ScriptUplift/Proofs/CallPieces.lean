import Mathlib.Data.List.Forall2
import Mathlib.Tactic.Common
import ScriptUplift.Proofs.CallReading

namespace ScriptUplift

/-!
# Pieces of code that can stand for each other

A piece of code is closed when it leaves no string and no bracket open, closes
no bracket it did not open, and has no comma outside of its brackets.  Arguments
are closed, and so is a call.  A reader of arguments passes a closed piece in one
step, so that one closed piece can take the place of another without moving a
comma or bracket around it.
-/

/-- What is open after a piece of an argument, if the argument does not end in it. -/
def walk : Quoting → Nat → Text → Option (Quoting × Nat)
  | quoting, depth, [] =>
      some (quoting, depth)
  | quoting, depth, character :: rest =>
      (advance quoting depth character).bind fun next => walk next.1 next.2 rest

/-- A piece of code that leaves nothing open and has no comma outside of its brackets. -/
def IsClosed
    (text : Text) :
    Prop :=
  walk .outside 0 text = some (.outside, 0)

instance (text : Text) : Decidable (IsClosed text) :=
  inferInstanceAs (Decidable (walk .outside 0 text = some (.outside, 0)))

theorem walk_append
    (quoting : Quoting)
    (depth : Nat)
    (first second : Text) :
    walk quoting depth (first ++ second) =
      (walk quoting depth first).bind fun next => walk next.1 next.2 second := by
  induction first generalizing quoting depth with
  | nil =>
      rfl
  | cons character rest inductionHypothesis =>
      simp only [List.cons_append, walk, inductionHypothesis]
      cases advance quoting depth character <;> rfl

/-- What goes on with an argument goes on with it inside of more brackets. -/
theorem advance_raise
    {quoting next : Quoting}
    {depth nextDepth : Nat}
    {character : Char}
    (advanced : advance quoting depth character = some (next, nextDepth))
    (more : Nat) :
    advance quoting (depth + more) character = some (next, nextDepth + more) := by
  unfold advance at advanced ⊢
  split at advanced
  · split at advanced
    · obtain ⟨rfl, rfl⟩ := Prod.mk.inj (Option.some.inj advanced)
      simp [*, Nat.add_right_comm]
    · split at advanced
      · split at advanced
        · cases advanced
        · obtain ⟨rfl, rfl⟩ := Prod.mk.inj (Option.some.inj advanced)
          simp [*]
          omega
      · split at advanced
        · cases advanced
        · rename_i inside
          obtain ⟨rfl, rfl⟩ := Prod.mk.inj (Option.some.inj advanced)
          have insideMore : ¬(character = ',' ∧ depth + more = 0) := by
            rintro ⟨comma, zero⟩
            exact inside ⟨comma, by omega⟩
          simp only [*, if_true, if_false, Bool.false_eq_true]
  · obtain ⟨rfl, rfl⟩ := Prod.mk.inj (Option.some.inj advanced)
    simp [*]

theorem walk_raise
    {quoting next : Quoting}
    {depth nextDepth : Nat}
    {text : Text}
    (walked : walk quoting depth text = some (next, nextDepth))
    (more : Nat) :
    walk quoting (depth + more) text = some (next, nextDepth + more) := by
  induction text generalizing quoting depth with
  | nil =>
      obtain ⟨rfl, rfl⟩ := Prod.mk.inj (Option.some.inj walked)
      rfl
  | cons character rest inductionHypothesis =>
      obtain ⟨⟨between, betweenDepth⟩, advanced, below⟩ := Option.bind_eq_some_iff.mp walked
      rw [walk, advance_raise advanced]
      exact inductionHypothesis below

/-- A walk reads strings as they are read anywhere. -/
theorem through_of_walk
    {quoting next : Quoting}
    {depth nextDepth : Nat}
    {text : Text}
    (walked : walk quoting depth text = some (next, nextDepth)) :
    quoting.through text = next := by
  induction text generalizing quoting depth with
  | nil =>
      exact (Prod.mk.inj (Option.some.inj walked)).1
  | cons character rest inductionHypothesis =>
      obtain ⟨⟨between, betweenDepth⟩, advanced, below⟩ := Option.bind_eq_some_iff.mp walked
      obtain ⟨rfl, _⟩ := advance_eq_some advanced
      exact inductionHypothesis below

namespace IsClosed

theorem append
    {first second : Text}
    (firstClosed : IsClosed first)
    (secondClosed : IsClosed second) :
    IsClosed (first ++ second) := by
  unfold IsClosed at firstClosed ⊢
  rw [walk_append, firstClosed]
  exact secondClosed

/-- Inside of brackets a closed piece changes nothing that is open. -/
theorem walk_eq
    {text : Text}
    (closed : IsClosed text)
    (depth : Nat) :
    walk .outside depth text = some (.outside, depth) := by
  simpa using walk_raise closed depth

theorem through_eq
    {text : Text}
    (closed : IsClosed text) :
    Quoting.outside.through text = .outside :=
  through_of_walk closed

end IsClosed

@[simp] theorem pushPiece_nil
    (read : List Text × Text) :
    pushPiece [] read = read := by
  obtain ⟨pieces, rest⟩ := read
  cases pieces <;> rfl

theorem pushPiece_pushPiece
    (first second : Text)
    (read : List Text × Text) :
    pushPiece first (pushPiece second read) = pushPiece (first ++ second) read := by
  obtain ⟨pieces, rest⟩ := read
  cases pieces <;> simp [pushPiece]

/-- What was walked over goes to the piece that is read. -/
theorem readPieces_append
    {quoting next : Quoting}
    {depth nextDepth : Nat}
    {text : Text}
    (walked : walk quoting depth text = some (next, nextDepth))
    (below : Text) :
    readPieces quoting depth (text ++ below) =
      (readPieces next nextDepth below).map (pushPiece text) := by
  induction text generalizing quoting depth with
  | nil =>
      obtain ⟨rfl, rfl⟩ := Prod.mk.inj (Option.some.inj walked)
      cases read : readPieces quoting depth below <;> simp [read]
  | cons character rest inductionHypothesis =>
      obtain ⟨⟨between, betweenDepth⟩, advanced, walkedRest⟩ := Option.bind_eq_some_iff.mp walked
      rw [List.cons_append, readPieces, advanced]
      dsimp only
      rw [inductionHypothesis walkedRest]
      cases readPieces next nextDepth below with
      | none =>
          rfl
      | some read =>
          simp [pushPiece_pushPiece]

/-- The shape of a list of arguments that was read up to its closing bracket. -/
structure ListRead
    (quoting : Quoting)
    (depth : Nat)
    (text first : Text)
    (others : List Text)
    (rest : Text) :
    Prop where
  firstWalk : walk quoting depth first = some (.outside, 0)
  othersClosed : ∀ piece ∈ others, IsClosed piece
  shape : ∃ closing, isClosingBracket closing = true ∧
    text = Text.joinWith [','] (first :: others) ++ closing :: rest

/-- Arguments that are read are closed, and make up the text up to the closing bracket. -/
theorem listRead_of_readPieces
    {quoting : Quoting}
    {depth : Nat}
    {text : Text}
    {pieces : List Text}
    {rest : Text}
    (read : readPieces quoting depth text = some (pieces, rest)) :
    ∃ first others, pieces = first :: others ∧ ListRead quoting depth text first others rest := by
  induction text generalizing quoting depth pieces rest with
  | nil =>
      cases read
  | cons character below inductionHypothesis =>
      unfold readPieces at read
      cases advanced : advance quoting depth character with
      | none =>
          obtain ⟨rfl, rfl, _, _, ends⟩ := advance_eq_none advanced
          rw [advanced] at read
          dsimp only at read
          rcases ends with rfl | ⟨closing, notComma⟩
          · rw [if_pos rfl] at read
            obtain ⟨found, readBelow, shape⟩ := Option.map_eq_some_iff.mp read
            obtain ⟨foundPieces, foundRest⟩ := found
            obtain ⟨rfl, rfl⟩ := Prod.mk.inj shape
            obtain ⟨first, others, rfl, firstWalk, othersClosed, closing, closes, rfl⟩ :=
              inductionHypothesis readBelow
            refine ⟨[], first :: others, rfl, rfl, ?_, closing, closes, rfl⟩
            exact List.forall_mem_cons.mpr ⟨firstWalk, othersClosed⟩
          · rw [if_neg notComma] at read
            obtain ⟨rfl, rfl⟩ := Prod.mk.inj (Option.some.inj read)
            exact ⟨[], [], rfl, rfl, by simp, character, closing, rfl⟩
      | some next =>
          rw [advanced] at read
          obtain ⟨found, readBelow, shape⟩ := Option.map_eq_some_iff.mp read
          obtain ⟨foundPieces, foundRest⟩ := found
          obtain ⟨first, others, rfl, firstWalk, othersClosed, closing, closes, rfl⟩ :=
            inductionHypothesis readBelow
          obtain ⟨rfl, rfl⟩ := Prod.mk.inj shape
          refine ⟨character :: first, others, rfl, ?_, othersClosed, closing, closes, ?_⟩
          · rw [walk, advanced]
            exact firstWalk
          · cases others <;> rfl

/-- The characters that can open, close or part something, or hide what does. -/
def codeMarks : List Char :=
  ['"', '\'', '\\', '#', '(', '[', '\x7b', ')', ']', '\x7d', ',']

/-- The characters that neither open nor close anything and part no arguments. -/
def isPlainChar
    (character : Char) :
    Bool :=
  !codeMarks.contains character

/-- A class without any of the marks holds plain characters only. -/
theorem isPlainChar_of_class
    {class? : Char → Bool}
    (noMark : codeMarks.any class? = false)
    {character : Char}
    (own : class? character = true) :
    isPlainChar character = true := by
  unfold isPlainChar
  rw [Bool.not_eq_true', ← Bool.not_eq_true, List.contains_iff_mem]
  intro isMark
  exact List.any_eq_false.mp noMark character isMark own

theorem isPlainChar_of_isIdentifierChar
    {character : Char}
    (word : isIdentifierChar character = true) :
    isPlainChar character = true :=
  isPlainChar_of_class (by decide) word

theorem isPlainChar_of_isBlankChar
    {character : Char}
    (blank : isBlankChar character = true) :
    isPlainChar character = true :=
  isPlainChar_of_class (by decide) blank

theorem all_isPlainChar_of_class
    {class? : Char → Bool}
    (noMark : codeMarks.any class? = false)
    {text : Text}
    (own : text.all class? = true) :
    text.all isPlainChar = true := by
  rw [List.all_eq_true] at own ⊢
  exact fun character member => isPlainChar_of_class noMark (own character member)

theorem all_isPlainChar_of_word
    {text : Text}
    (word : text.all isIdentifierChar = true) :
    text.all isPlainChar = true :=
  all_isPlainChar_of_class (by decide) word

theorem all_isPlainChar_of_blank
    {text : Text}
    (blank : text.all isBlankChar = true) :
    text.all isPlainChar = true :=
  all_isPlainChar_of_class (by decide) blank

section

variable {character : Char} (plain : isPlainChar character = true)

include plain

/-- A plain character is in no class of marks. -/
theorem eq_false_of_isPlainChar
    {class? : Char → Bool}
    (marks : ∀ mark, class? mark = true → mark ∈ codeMarks) :
    class? character = false := by
  rw [Bool.eq_false_iff]
  intro own
  simp [isPlainChar, marks character own] at plain

theorem ne_of_isPlainChar
    {mark : Char}
    (isMark : mark ∈ codeMarks) :
    character ≠ mark := by
  rintro rfl
  simp [isPlainChar, isMark] at plain

theorem isQuoteMark_of_isPlainChar :
    isQuoteMark character = false :=
  eq_false_of_isPlainChar plain (by simp [isQuoteMark, codeMarks])

theorem isOpeningBracket_of_isPlainChar :
    isOpeningBracket character = false :=
  eq_false_of_isPlainChar plain (by simp [isOpeningBracket, codeMarks]; grind)

theorem isClosingBracket_of_isPlainChar :
    isClosingBracket character = false :=
  eq_false_of_isPlainChar plain (by simp [isClosingBracket, codeMarks]; grind)

theorem bracketStep_of_isPlainChar :
    bracketStep character = 0 := by
  simp [bracketStep, isOpeningBracket_of_isPlainChar plain, isClosingBracket_of_isPlainChar plain]

theorem advance_of_isPlainChar
    (depth : Nat) :
    advance .outside depth character = some (.outside, depth) := by
  have notComma : character ≠ ',' := ne_of_isPlainChar plain (by decide)
  simp [advance, isQuoteMark_of_isPlainChar plain, isOpeningBracket_of_isPlainChar plain,
    isClosingBracket_of_isPlainChar plain, notComma, Quoting.step]

end

theorem walk_of_plain
    {text : Text}
    (plain : text.all isPlainChar = true)
    (depth : Nat) :
    walk .outside depth text = some (.outside, depth) := by
  induction text with
  | nil =>
      rfl
  | cons character rest inductionHypothesis =>
      rw [List.all_cons, Bool.and_eq_true] at plain
      rw [walk, advance_of_isPlainChar plain.1]
      exact inductionHypothesis plain.2

theorem isClosed_of_plain
    {text : Text}
    (plain : text.all isPlainChar = true) :
    IsClosed text :=
  walk_of_plain plain 0

/-- Inside of brackets separators part nothing that matters. -/
theorem walk_joinWith
    {separator : Text}
    {depth : Nat}
    (separates : walk .outside depth separator = some (.outside, depth))
    {pieces : List Text}
    (closed : ∀ piece ∈ pieces, IsClosed piece) :
    walk .outside depth (Text.joinWith separator pieces) = some (.outside, depth) := by
  induction pieces with
  | nil =>
      rfl
  | cons first others inductionHypothesis =>
      obtain ⟨firstClosed, othersClosed⟩ := List.forall_mem_cons.mp closed
      cases others with
      | nil =>
          rw [Text.joinWith_singleton]
          exact firstClosed.walk_eq depth
      | cons second rest =>
          rw [Text.joinWith_cons_cons, walk_append, firstClosed.walk_eq, Option.bind_some, walk_append, separates]
          exact inductionHypothesis othersClosed

/-- What leaves nothing open inside of brackets is closed with them. -/
theorem isClosed_of_bracketed
    {opening closing : Char}
    (opens : isOpeningBracket opening = true)
    (closes : isClosingBracket closing = true)
    {inner : Text}
    (walked : walk .outside 1 inner = some (.outside, 1)) :
    IsClosed (opening :: (inner ++ [closing])) := by
  have notOpening : isOpeningBracket closing = false := by
    simp only [isClosingBracket, Bool.or_eq_true, beq_iff_eq] at closes
    rcases closes with (rfl | rfl) | rfl <;> decide
  have first : advance .outside 0 opening = some (.outside, 1) := by
    simp [advance, opens]
  have last : advance .outside 1 closing = some (.outside, 0) := by
    simp [advance, notOpening, closes]
  unfold IsClosed
  rw [walk, first, Option.bind_some, walk_append, walked, Option.bind_some, walk, last]
  rfl

/-- Whether a text ends in a word, outside of strings. -/
def endsInWord : Quoting → Bool → Text → Bool
  | _, inWord, [] =>
      inWord
  | quoting, _, character :: rest =>
      endsInWord (quoting.step character) (quoting.isWordChar character) rest

/-- The words of a joined text start in the one or the other part. -/
theorem wordStarts_append
    (quoting : Quoting)
    (inWord : Bool)
    (first second : Text) :
    wordStarts quoting inWord (first ++ second) =
      (wordStarts quoting inWord first).map (· ++ second) ++
        wordStarts (quoting.through first) (endsInWord quoting inWord first) second := by
  induction first generalizing quoting inWord with
  | nil =>
      rfl
  | cons character rest inductionHypothesis =>
      simp only [List.cons_append, wordStarts, inductionHypothesis, Quoting.through_cons,
        endsInWord]
      split <;> rfl

/-- A text that ends outside of strings and in no word, so that another word can start. -/
structure EndsApart
    (quoting : Quoting)
    (inWord : Bool)
    (text : Text) :
    Prop where
  outside : quoting.through text = .outside
  noWord : endsInWord quoting inWord text = false

theorem step_of_isIdentifierChar
    {character : Char}
    (word : isIdentifierChar character = true) :
    Quoting.outside.isWordChar character = true ∧
      Quoting.outside.step character = .outside := by
  have isWord : Quoting.outside.isWordChar character = true := by
    simpa [Quoting.isWordChar] using word
  exact ⟨isWord, (Quoting.step_of_isWordChar isWord).2.1⟩

/-- A word goes on through characters of words. -/
theorem endsInWord_of_all_isIdentifierChar
    {text : Text}
    (word : text.all isIdentifierChar = true) :
    endsInWord .outside true text = true := by
  induction text with
  | nil =>
      rfl
  | cons character rest inductionHypothesis =>
      rw [List.all_cons, Bool.and_eq_true] at word
      obtain ⟨isWord, goesOn⟩ := step_of_isIdentifierChar word.1
      rw [endsInWord, isWord, goesOn]
      exact inductionHypothesis word.2

/-- A word that starts in a text that ends apart ends in it, and the text ends apart from there. -/
theorem endsApart_of_mem_wordStarts
    {quoting : Quoting}
    {inWord : Bool}
    {text start : Text}
    (apart : EndsApart quoting inWord text)
    (member : start ∈ wordStarts quoting inWord text) :
    EndsApart .outside false start ∧ start.all isIdentifierChar = false := by
  induction text generalizing quoting inWord with
  | nil =>
      cases member
  | cons character rest inductionHypothesis =>
      have apartBelow : EndsApart (quoting.step character) (quoting.isWordChar character) rest :=
        ⟨apart.outside, apart.noWord⟩
      unfold wordStarts at member
      dsimp only at member
      split at member
      · rename_i starts
        rw [Bool.and_eq_true] at starts
        rcases List.mem_cons.mp member with rfl | below
        · obtain ⟨rfl, goesOn, isWord⟩ := Quoting.step_of_isWordChar starts.1
          refine ⟨⟨apart.outside, apart.noWord⟩, ?_⟩
          rw [Bool.eq_false_iff]
          intro whole
          rw [List.all_cons, Bool.and_eq_true] at whole
          have inside := endsInWord_of_all_isIdentifierChar whole.2
          have outside := apartBelow.noWord
          rw [goesOn, starts.1, inside] at outside
          cases outside
        · exact inductionHypothesis apartBelow below
      · exact inductionHypothesis apartBelow member

/-- The first run of a class is the same below which ever text, when it ends in its own. -/
theorem takeWhile_append_of_not_all
    {class? : Char → Bool}
    {text : Text}
    (ends : text.all class? = false)
    (below : Text) :
    (text ++ below).takeWhile class? = text.takeWhile class? ∧
      (text ++ below).dropWhile class? = text.dropWhile class? ++ below := by
  induction text with
  | nil =>
      cases ends
  | cons character rest inductionHypothesis =>
      cases own : class? character with
      | false =>
          simp [own]
      | true =>
          rw [List.all_cons, own, Bool.true_and] at ends
          obtain ⟨taken, dropped⟩ := inductionHypothesis ends
          simp [own, taken, dropped]

/-- Two lists of arguments that differ in one text that stands for another. -/
inductive PieceSwapped
    (old new : Text) :
    Text → Text → Prop
  | same (piece : Text) :
      PieceSwapped old new piece piece
  | swapped (above below : Text) :
      PieceSwapped old new (above ++ (old ++ below)) (above ++ (new ++ below))

/-- Readings of arguments that differ in one text that stands for another. -/
inductive ReadSwapped
    (old new : Text) :
    Option (List Text × Text) → Option (List Text × Text) → Prop
  | unread :
      ReadSwapped old new none none
  | read
      {first second : List Text}
      (pieces : List.Forall₂ (PieceSwapped old new) first second)
      (rest other : Text) :
      ReadSwapped old new (some (first, rest)) (some (second, other))

theorem PieceSwapped.push
    {old new : Text}
    {first second : Text}
    (swapped : PieceSwapped old new first second)
    (text : Text) :
    PieceSwapped old new (text ++ first) (text ++ second) := by
  cases swapped with
  | same =>
      exact .same _
  | swapped above below =>
      rw [← List.append_assoc, ← List.append_assoc text]
      exact .swapped (text ++ above) below

theorem ReadSwapped.push
    {old new : Text}
    {first second : Option (List Text × Text)}
    (swapped : ReadSwapped old new first second)
    (text : Text) :
    ReadSwapped old new (first.map (pushPiece text)) (second.map (pushPiece text)) := by
  cases swapped with
  | unread =>
      exact .unread
  | read pieces rest other =>
      cases pieces with
      | nil =>
          exact .read .nil rest other
      | cons head tail =>
          exact .read (.cons (head.push text) tail) rest other

theorem ReadSwapped.comma
    {old new : Text}
    {first second : Option (List Text × Text)}
    (swapped : ReadSwapped old new first second) :
    ReadSwapped old new (first.map fun read => ([] :: read.1, read.2))
      (second.map fun read => ([] :: read.1, read.2)) := by
  cases swapped with
  | unread =>
      exact .unread
  | read pieces rest other =>
      exact .read (.cons (.same []) pieces) rest other

theorem forall₂_pieceSwapped_refl
    (old new : Text)
    (pieces : List Text) :
    List.Forall₂ (PieceSwapped old new) pieces pieces :=
  List.forall₂_same.mpr fun _ _ => .same _

/-- A reader of arguments cuts alike around closed pieces that stand for each other. -/
theorem readPieces_swapped
    {old new : Text}
    (oldClosed : IsClosed old)
    (newClosed : IsClosed new)
    {quoting : Quoting}
    {text : Text}
    (outside : quoting.through text = .outside)
    (depth : Nat)
    (below : Text) :
    ReadSwapped old new (readPieces quoting depth (text ++ (old ++ below)))
      (readPieces quoting depth (text ++ (new ++ below))) := by
  induction text generalizing quoting depth with
  | nil =>
      have isOutside : quoting = .outside := outside
      subst isOutside
      rw [List.nil_append, List.nil_append, readPieces_append (oldClosed.walk_eq depth),
        readPieces_append (newClosed.walk_eq depth)]
      cases readPieces .outside depth below with
      | none =>
          exact .unread
      | some read =>
          obtain ⟨pieces, rest⟩ := read
          cases pieces with
          | nil =>
              exact .read .nil rest rest
          | cons piece others =>
              exact .read (.cons (.swapped [] piece) (forall₂_pieceSwapped_refl _ _ _)) rest rest
  | cons character rest inductionHypothesis =>
      rw [List.cons_append, List.cons_append, readPieces, readPieces]
      cases advanced : advance quoting depth character with
      | none =>
          obtain ⟨rfl, rfl, _, step, _⟩ := advance_eq_none advanced
          dsimp only
          split
          · rw [Quoting.through_cons, step] at outside
            exact (inductionHypothesis outside 0).comma
          · exact .read (forall₂_pieceSwapped_refl _ _ _) _ _
      | some next =>
          obtain ⟨nextQuoting, nextDepth⟩ := next
          obtain ⟨rfl, _⟩ := advance_eq_some advanced
          exact (inductionHypothesis outside nextDepth).push [character]

/-- Arguments that differ in one text that stands for another. -/
inductive ArgumentSwapped
    (old new : Text) :
    Text → Text → Prop
  | same (argument : Text) :
      ArgumentSwapped old new argument argument
  | swapped (above below : Text) :
      ArgumentSwapped old new (Text.trim (above ++ (old ++ below)))
        (Text.trim (above ++ (new ++ below)))

/-- Calls that differ in one text that stands for another. -/
inductive SiteSwapped
    (old new : Text) :
    Option CallSite → Option CallSite → Prop
  | noCall :
      SiteSwapped old new none none
  | call
      {first second : CallSite}
      (arguments : List.Forall₂ (ArgumentSwapped old new) first.arguments second.arguments) :
      SiteSwapped old new (some first) (some second)

/-- A closed piece that begins with a word: a call, or what a call is replaced by. -/
structure Operand
    (text : Text) :
    Prop where
  closed : IsClosed text
  head : text.head?.any isIdentifierChar = true
  visible : text.isBlank = false

theorem PieceSwapped.trim
    {old new : Text}
    {first second : Text}
    (swapped : PieceSwapped old new first second) :
    ArgumentSwapped old new first.trim second.trim := by
  cases swapped with
  | same =>
      exact .same _
  | swapped above below =>
      exact .swapped above below

/-- A piece is blank or not whichever of two visible texts it holds. -/
theorem PieceSwapped.trim_eq_nil_iff
    {old new : Text}
    (oldVisible : old.isBlank = false)
    (newVisible : new.isBlank = false)
    {first second : Text}
    (swapped : PieceSwapped old new first second) :
    first.trim = [] ↔ second.trim = [] := by
  cases swapped with
  | same =>
      exact Iff.rfl
  | swapped above below =>
      rw [Text.trim_eq_nil_iff, Text.trim_eq_nil_iff]
      simp [oldVisible, newVisible]

theorem argumentsOf_swapped
    {old new : Text}
    (oldVisible : old.isBlank = false)
    (newVisible : new.isBlank = false)
    {first second : List Text}
    (pieces : List.Forall₂ (PieceSwapped old new) first second) :
    List.Forall₂ (ArgumentSwapped old new) (argumentsOf first) (argumentsOf second) := by
  have trimmed : List.Forall₂ (ArgumentSwapped old new) (first.map Text.trim)
      (second.map Text.trim) := by
    rw [List.forall₂_map_left_iff, List.forall₂_map_right_iff]
    exact pieces.imp fun _ _ => PieceSwapped.trim
  have blankIff : first.map Text.trim = [[]] ↔ second.map Text.trim = [[]] := by
    cases pieces with
    | nil =>
        simp
    | cons head tail =>
        cases tail with
        | nil =>
            simpa using head.trim_eq_nil_iff oldVisible newVisible
        | cons =>
            simp
  unfold argumentsOf
  by_cases blank : first.map Text.trim = [[]]
  · rw [if_pos blank, if_pos (blankIff.mp blank)]
    exact .nil
  · rw [if_neg blank, if_neg (fun blankToo => blank (blankIff.mpr blankToo))]
    exact trimmed

/-- Readings that differ in one text make calls that differ in it. -/
theorem ReadSwapped.site
    {old new : Text}
    (oldVisible : old.isBlank = false)
    (newVisible : new.isBlank = false)
    {first second : Option (List Text × Text)}
    (swapped : ReadSwapped old new first second)
    (start other : Text) :
    SiteSwapped old new
      (first.map fun read => ⟨start, argumentsOf read.1, read.2⟩)
      (second.map fun read => ⟨other, argumentsOf read.1, read.2⟩) := by
  cases swapped with
  | unread =>
      exact .noCall
  | read pieces =>
      exact .call (argumentsOf_swapped oldVisible newVisible pieces)

/-- An operand begins with neither a space nor a bracket. -/
theorem Operand.exists_head
    {text : Text}
    (operand : Operand text) :
    ∃ character rest, text = character :: rest ∧ isIdentifierChar character = true := by
  cases text with
  | nil =>
      cases operand.head
  | cons character rest =>
      exact ⟨character, rest, rfl, by simpa using operand.head⟩

/-- No argument list opens at a text that begins with the character of a word. -/
theorem dropWhile_space_of_isIdentifierChar
    {character : Char}
    (word : isIdentifierChar character = true)
    (rest : Text) :
    (character :: rest).dropWhile (· == ' ') = character :: rest ∧ character ≠ '(' := by
  have notSpace : character ≠ ' ' := by
    rintro rfl
    exact absurd word (by decide)
  refine ⟨by simp [notSpace], ?_⟩
  rintro rfl
  exact absurd word (by decide)

/-- Where a word and the spaces behind it end, no string is open. -/
theorem through_word_and_spaces
    (start : Text) :
    Quoting.outside.through (start.takeWhile isIdentifierChar) = .outside ∧
      Quoting.outside.through (start.takeWhile (· == ' ')) = .outside := by
  have ofClass {class? : Char → Bool} (noMark : codeMarks.any class? = false) :
      Quoting.outside.through (start.takeWhile class?) = .outside := by
    apply (isClosed_of_plain _).through_eq
    rw [List.all_eq_true]
    exact fun _ member => isPlainChar_of_class noMark (List.mem_takeWhile_imp member)
  exact ⟨ofClass (by decide), ofClass (by decide)⟩

/-- A text with more than a name and spaces opens the list that a call of the name reads. -/
theorem callAt_append
    {callee start body : Text}
    {character : Char}
    (ends : start.all isIdentifierChar = false)
    (isCallee : start.takeWhile isIdentifierChar = callee)
    (gap : (start.drop callee.length).dropWhile (· == ' ') = character :: body)
    (below : Text) :
    callAt callee (start ++ below) = listAt (character :: (body ++ below)) := by
  have shorter : callee.length ≤ start.length := by
    rw [← isCallee]
    exact (List.takeWhile_prefix _).length_le
  have gapEnds : (start.drop callee.length).all (· == ' ') = false := by
    rw [Bool.eq_false_iff, ne_eq, List.all_eq_true, ← List.dropWhile_eq_nil_iff, gap]
    exact List.cons_ne_nil _ _
  rw [callAt, (takeWhile_append_of_not_all ends _).1, if_pos isCallee,
    List.drop_append_of_le_length shorter, (takeWhile_append_of_not_all gapEnds _).2, gap,
    List.cons_append]

/-- What follows the word at the start of a text, up to the argument list. -/
theorem exists_body_or_not
    {callee start : Text}
    (isCallee : start.takeWhile isIdentifierChar = callee)
    (apart : EndsApart .outside false start) :
    ((start.drop callee.length).all (· == ' ') = true ∨
      ∃ character body,
        (start.drop callee.length).dropWhile (· == ' ') = character :: body ∧
          (character = '(' → Quoting.outside.through body = .outside)) := by
  cases spaces : (start.drop callee.length).all (· == ' ') with
  | true =>
      exact .inl rfl
  | false =>
      refine .inr ?_
      have word : start.takeWhile isIdentifierChar ++ start.drop callee.length = start := by
        rw [← isCallee, drop_length_takeWhile, List.takeWhile_append_dropWhile]
      generalize start.drop callee.length = after at word spaces ⊢
      cases gap : after.dropWhile (· == ' ') with
      | nil =>
          rw [List.dropWhile_eq_nil_iff] at gap
          rw [List.all_eq_true.mpr gap] at spaces
          cases spaces
      | cons character body =>
          refine ⟨character, body, rfl, ?_⟩
          rintro rfl
          have split : after.takeWhile (· == ' ') ++ '(' :: body = after := by
            rw [← gap]
            exact List.takeWhile_append_dropWhile
          have whole := apart.outside
          rw [← word, Quoting.through_append, (through_word_and_spaces start).1, ← split,
            Quoting.through_append, (through_word_and_spaces after).2] at whole
          exact whole

/-- A call that begins above an operand is a call with any other operand in its place. -/
theorem siteAt_swapped
    (callee : Text)
    {start : Text}
    (apart : EndsApart .outside false start)
    (ends : start.all isIdentifierChar = false)
    {old new : Text}
    (oldOperand : Operand old)
    (newOperand : Operand new)
    (below : Text) :
    SiteSwapped old new (siteAt callee (start ++ (old ++ below)))
      (siteAt callee (start ++ (new ++ below))) := by
  unfold siteAt
  by_cases isCallee : start.takeWhile isIdentifierChar = callee
  · rcases exists_body_or_not isCallee apart with spaces | ⟨character, body, gap, outside⟩
    · -- The callee is followed by the operand itself, so that it opens no list.
      have shorter : callee.length ≤ start.length := by
        rw [← isCallee]
        exact (List.takeWhile_prefix _).length_le
      have noList {operand : Text} (isOperand : Operand operand) (rest : Text) :
          ∃ first others, (start.drop callee.length ++ (operand ++ rest)).dropWhile (· == ' ') =
            first :: others ∧ first ≠ '(' := by
        obtain ⟨first, others, rfl, word⟩ := isOperand.exists_head
        obtain ⟨dropped, notBracket⟩ := dropWhile_space_of_isIdentifierChar word (others ++ rest)
        refine ⟨first, others ++ rest, ?_, notBracket⟩
        rw [List.dropWhile_append_of_pos (List.all_eq_true.mp spaces)]
        exact dropped
      obtain ⟨oldHead, oldRest, oldShape, oldOther⟩ := noList oldOperand below
      obtain ⟨newHead, newRest, newShape, newOther⟩ := noList newOperand below
      rw [callAt, callAt, (takeWhile_append_of_not_all ends _).1,
        (takeWhile_append_of_not_all ends _).1, if_pos isCallee, if_pos isCallee,
        List.drop_append_of_le_length shorter, List.drop_append_of_le_length shorter, oldShape,
        newShape, listAt_of_ne oldOther, listAt_of_ne newOther]
      exact .noCall
    · rw [callAt_append ends isCallee gap, callAt_append ends isCallee gap]
      by_cases opens : character = '('
      · subst opens
        exact (readPieces_swapped oldOperand.closed newOperand.closed (outside rfl) 0
          below).site oldOperand.visible newOperand.visible _ _
      · rw [listAt_of_ne opens, listAt_of_ne opens]
        exact .noCall
  · rw [callAt, callAt, (takeWhile_append_of_not_all ends _).1,
      (takeWhile_append_of_not_all ends _).1, if_neg isCallee, if_neg isCallee]
    exact .noCall

end ScriptUplift
