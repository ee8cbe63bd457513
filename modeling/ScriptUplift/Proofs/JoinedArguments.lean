import Mathlib.Data.List.Basic
import Mathlib.Tactic.Common
import ScriptUplift.Proofs.EmittedArguments

namespace ScriptUplift

/-!
# Argument lists that are joined and cut again

A cut leaves pieces that are read on their own: each begins outside of strings
at depth zero, comes back there unless it is the last one, and meets no comma
that would part it.  Such pieces are found again between the commas that join
them, however the brackets inside of them are ordered.  Trimming a piece, and a
space in front of it, change nothing about this, because blanks at the ends of a
piece stand outside of strings or at the end of the list.
-/

/--
What a reader of arguments is inside of after a piece, whatever its brackets;
nothing is told at a comma that parts arguments.
-/
def readPiece : Quoting → Int → Text → Option (Quoting × Int)
  | quoting, depth, [] =>
      some (quoting, depth)
  | quoting, depth, character :: rest =>
      if quoting.shown character = ',' ∧ depth = 0 then
        none
      else
        readPiece (quoting.step character)
          (depth + bracketStep (quoting.shown character)) rest

theorem readPiece_append
    (quoting : Quoting)
    (depth : Int)
    (first second : Text) :
    readPiece quoting depth (first ++ second) =
      (readPiece quoting depth first).bind fun next => readPiece next.1 next.2 second := by
  induction first generalizing quoting depth with
  | nil =>
      rfl
  | cons character rest inductionHypothesis =>
      simp only [List.cons_append, readPiece]
      split
      · rfl
      · exact inductionHypothesis _ _

/-- Strings are read in a piece as they are anywhere. -/
theorem through_of_readPiece
    {quoting next : Quoting}
    {depth nextDepth : Int}
    {text : Text}
    (read : readPiece quoting depth text = some (next, nextDepth)) :
    quoting.through text = next := by
  induction text generalizing quoting depth with
  | nil =>
      exact (Prod.mk.inj (Option.some.inj read)).1
  | cons character rest inductionHypothesis =>
      simp only [readPiece] at read
      split at read
      · cases read
      · exact inductionHypothesis read

/-- A walk, which refuses unmatched brackets, reads a piece. -/
theorem readPiece_of_walk
    {quoting next : Quoting}
    {depth nextDepth : Nat}
    {text : Text}
    (walked : walk quoting depth text = some (next, nextDepth)) :
    readPiece quoting depth text = some (next, (nextDepth : Int)) := by
  induction text generalizing quoting depth with
  | nil =>
      obtain ⟨rfl, rfl⟩ := Prod.mk.inj (Option.some.inj walked)
      rfl
  | cons character rest inductionHypothesis =>
      obtain ⟨⟨between, betweenDepth⟩, advanced, below⟩ := Option.bind_eq_some_iff.mp walked
      obtain ⟨rfl, deeper, notComma, _⟩ := advance_eq_some advanced
      have goesOn : ¬(quoting.shown character = ',' ∧ (depth : Int) = 0) := by
        simpa using notComma
      simp only [readPiece, if_neg goesOn, ← deeper]
      exact inductionHypothesis below

/-! ## Blanks around a piece -/

theorem readPiece_of_blank
    {blanks : Text}
    (blank : blanks.all isBlankChar = true)
    (depth : Int) :
    readPiece .outside depth blanks = some (.outside, depth) := by
  induction blanks with
  | nil =>
      rfl
  | cons character rest inductionHypothesis =>
      obtain ⟨own, others⟩ := Bool.and_eq_true_iff.mp blank
      -- A blank character is plain, and the reader that counts brackets says what that means.
      obtain ⟨stays, level, notComma, _⟩ :=
        advance_eq_some (advance_of_isPlainChar (isPlainChar_of_isBlankChar own) 0)
      have noBracket : bracketStep (Quoting.outside.shown character) = 0 := by
        omega
      have goesOn : ¬(Quoting.outside.shown character = ',' ∧ depth = 0) :=
        fun comma => notComma ⟨comma.1, rfl⟩
      simp only [readPiece, if_neg goesOn, noBracket, Int.add_zero, ← stays]
      exact inductionHypothesis others

/-- Blanks close no string. -/
theorem Quoting.outside_of_through_blank
    {quoting : Quoting}
    (proper : quoting.IsProper)
    {blanks : Text}
    (blank : blanks.all isBlankChar = true)
    (outside : quoting.through blanks = .outside) :
    quoting = .outside := by
  induction blanks generalizing quoting with
  | nil =>
      exact outside
  | cons character rest inductionHypothesis =>
      obtain ⟨own, others⟩ := Bool.and_eq_true_iff.mp blank
      have noQuote := isQuoteMark_of_isPlainChar (isPlainChar_of_isBlankChar own)
      exact outside_of_step proper noQuote
        (inductionHypothesis (isProper_step proper character) others outside)

/--
A change after which pieces are read alike: what is a piece stays one, and what
comes back outside of strings to depth zero still does.
-/
structure KeepsPieces
    (change : Text → Text) :
    Prop where
  stays : ∀ {piece}, (readPiece .outside 0 piece).isSome = true →
    (readPiece .outside 0 (change piece)).isSome = true
  returns : ∀ {piece}, readPiece .outside 0 piece = some (.outside, 0) →
    readPiece .outside 0 (change piece) = some (.outside, 0)

theorem keepsPieces_trim : KeepsPieces Text.trim where
  stays := by
    intro piece read
    obtain ⟨front, back, frontBlank, _, shape⟩ := piece.exists_trim
    rw [shape, readPiece_append, readPiece_of_blank frontBlank, Option.bind_some,
      readPiece_append] at read
    exact Option.isSome_of_isSome_bind read
  returns := by
    intro piece read
    obtain ⟨front, back, frontBlank, backBlank, shape⟩ := piece.exists_trim
    rw [shape, readPiece_append, readPiece_of_blank frontBlank, Option.bind_some,
      readPiece_append] at read
    obtain ⟨⟨quoting, depth⟩, inner, behind⟩ := Option.bind_eq_some_iff.mp read
    have start : Quoting.outside.IsProper :=
      trivial
    have proper : quoting.IsProper :=
      through_of_readPiece inner ▸ Quoting.isProper_through start _
    obtain rfl := Quoting.outside_of_through_blank proper backBlank (through_of_readPiece behind)
    rwa [readPiece_of_blank backBlank, ← inner] at behind

theorem keepsPieces_spaced : KeepsPieces (' ' :: ·) where
  stays read := read
  returns read := read

/-! ## Cuts -/

/--
The pieces of a list that is read from the given state on, such that a reader
finds each comma between them and no other.
-/
inductive IsCut : Quoting → Int → List Text → Prop
  | last {quoting : Quoting} {depth : Int} {piece : Text} :
      (readPiece quoting depth piece).isSome = true →
      IsCut quoting depth [piece]
  | cons {quoting : Quoting} {depth : Int} {piece : Text} {others : List Text} :
      readPiece quoting depth piece = some (.outside, 0) →
      IsCut .outside 0 others →
      IsCut quoting depth (piece :: others)

namespace IsCut

/-- A character that parts nothing can stand in front of the first piece. -/
theorem push
    {quoting : Quoting}
    {depth : Int}
    {character : Char}
    (goesOn : ¬(quoting.shown character = ',' ∧ depth = 0))
    {piece : Text}
    {others : List Text}
    (cut : IsCut (quoting.step character)
      (depth + bracketStep (quoting.shown character)) (piece :: others)) :
    IsCut quoting depth ((character :: piece) :: others) := by
  have reads : readPiece quoting depth (character :: piece) =
      readPiece (quoting.step character)
        (depth + bracketStep (quoting.shown character)) piece := by
    simp only [readPiece, if_neg goesOn]
  cases cut with
  | last read =>
      exact .last (reads ▸ read)
  | cons read below =>
      exact .cons (reads.trans read) below

theorem map
    {change : Text → Text}
    (keeps : KeepsPieces change)
    {quoting : Quoting}
    {depth : Int}
    {pieces : List Text}
    (start : quoting = .outside ∧ depth = 0)
    (cut : IsCut quoting depth pieces) :
    IsCut .outside 0 (pieces.map change) := by
  induction cut with
  | last read =>
      obtain ⟨rfl, rfl⟩ := start
      exact .last (keeps.stays read)
  | cons read _ inductionHypothesis =>
      obtain ⟨rfl, rfl⟩ := start
      exact .cons (keeps.returns read) (inductionHypothesis ⟨rfl, rfl⟩)

/-- Arguments are still cut alike with a space behind each comma. -/
theorem spaced
    {arguments : List Text}
    (cut : IsCut .outside 0 arguments) :
    IsCut .outside 0 (spacedPieces arguments) := by
  cases cut with
  | last read =>
      exact .last read
  | cons read below =>
      exact .cons read (below.map keepsPieces_spaced ⟨rfl, rfl⟩)

/-- Closed arguments are cut at the commas that join them. -/
theorem of_isClosed
    {first : Text}
    {others : List Text}
    (closed : ∀ argument ∈ first :: others, IsClosed argument) :
    IsCut .outside 0 (first :: others) := by
  induction others generalizing first with
  | nil =>
      have read := readPiece_of_walk (closed first List.mem_cons_self)
      exact .last (Option.isSome_of_eq_some read)
  | cons second others inductionHypothesis =>
      obtain ⟨firstClosed, othersClosed⟩ := List.forall_mem_cons.mp closed
      exact .cons (readPiece_of_walk firstClosed) (inductionHypothesis othersClosed)

end IsCut

/-- A character that parts nothing joins the first piece behind it. -/
theorem argumentPieces_cons
    {depth : Int}
    {masked character : Char}
    (goesOn : ¬(masked = ',' ∧ depth = 0))
    (rest : List (Char × Char)) :
    argumentPieces depth ((masked, character) :: rest) =
      (argumentPieces (depth + bracketStep masked) rest).modifyHead (character :: ·) := by
  rw [argumentPieces, if_neg goesOn]
  cases pieces : argumentPieces (depth + bracketStep masked) rest with
  | nil =>
      exact absurd pieces (argumentPieces_ne_nil _ _)
  | cons piece others =>
      rfl

/-- Every list is cut into pieces that are read on their own. -/
theorem isCut_argumentPieces
    (quoting : Quoting)
    (depth : Int)
    (text : Text) :
    IsCut quoting depth (argumentPieces depth ((quoting.mask text).zip text)) := by
  induction text generalizing quoting depth with
  | nil =>
      exact .last rfl
  | cons character rest inductionHypothesis =>
      simp only [Quoting.mask, List.zip_cons_cons]
      by_cases parts : quoting.shown character = ',' ∧ depth = 0
      · obtain ⟨comma, rfl⟩ := parts
        have isComma : character = ',' :=
          Quoting.shown_eq_comma comma
        -- Inside of a string a quotation mark would be shown in place of the comma.
        have isOutside : quoting = .outside := by
          by_contra inString
          simp [Quoting.shown, inString] at comma
        subst isComma isOutside
        rw [argumentPieces, if_pos ⟨comma, rfl⟩]
        exact .cons rfl (inductionHypothesis .outside 0)
      · have below := inductionHypothesis (quoting.step character)
          (depth + bracketStep (quoting.shown character))
        rw [argumentPieces_cons parts]
        cases pieces : argumentPieces (depth + bracketStep (quoting.shown character))
            (((quoting.step character).mask rest).zip rest) with
        | nil =>
            exact absurd pieces (argumentPieces_ne_nil _ _)
        | cons piece others =>
            rw [pieces] at below
            exact below.push parts

/-- What is read as one piece is no more than the beginning of the first one. -/
theorem argumentPieces_append
    {quoting next : Quoting}
    {depth nextDepth : Int}
    {piece : Text}
    (read : readPiece quoting depth piece = some (next, nextDepth))
    (rest : Text) :
    argumentPieces depth ((quoting.mask (piece ++ rest)).zip (piece ++ rest)) =
      (argumentPieces nextDepth ((next.mask rest).zip rest)).modifyHead (piece ++ ·) := by
  induction piece generalizing quoting depth with
  | nil =>
      obtain ⟨rfl, rfl⟩ := Prod.mk.inj (Option.some.inj read)
      exact (congrFun List.modifyHead_id _).symm
  | cons character others inductionHypothesis =>
      simp only [readPiece] at read
      split at read
      · cases read
      · rename_i goesOn
        simp only [List.cons_append, Quoting.mask, List.zip_cons_cons]
        rw [argumentPieces_cons goesOn, inductionHypothesis read, List.modifyHead_modifyHead]
        rfl

/-- Pieces that are read on their own are found again between the commas that join them. -/
theorem argumentPieces_joinWith
    {quoting : Quoting}
    {depth : Int}
    {pieces : List Text}
    (cut : IsCut quoting depth pieces) :
    argumentPieces depth
        ((quoting.mask (Text.joinWith [','] pieces)).zip (Text.joinWith [','] pieces)) =
      pieces := by
  induction cut with
  | @last quoting depth piece read =>
      obtain ⟨⟨next, nextDepth⟩, read⟩ := Option.isSome_iff_exists.mp read
      have whole := argumentPieces_append read []
      simpa [Text.joinWith_singleton, Quoting.mask, argumentPieces] using whole
  | @cons quoting depth piece others read below inductionHypothesis =>
      cases others with
      | nil =>
          cases below
      | cons second more =>
          have comma (list : Text) :
              argumentPieces 0 ((Quoting.outside.mask (',' :: list)).zip (',' :: list)) =
                [] :: argumentPieces 0 ((Quoting.outside.mask list).zip list) :=
            rfl
          rw [Text.joinWith_cons_cons, argumentPieces_append read, List.singleton_append, comma,
            inductionHypothesis]
          simp

/--
Trimmed arguments come back from their list, but for a single empty one, if each
comma that joins them parts them and no other comma does.
-/
theorem splitArguments_joinWith
    {arguments : List Text}
    (cut : IsCut .outside 0 arguments)
    (trimmed : ∀ argument ∈ arguments, argument.trim = argument) :
    splitArguments (Text.joinWith ", ".toList arguments) =
      if arguments = [[]] then [] else arguments := by
  rw [splitArguments_eq, ← joinWith_spacedPieces, argumentPieces_joinWith cut.spaced,
    argumentsOf_spacedPieces trimmed]

/--
Arguments that were cut from any list come back when they are joined with commas
and spaces and the list is cut again.  So does every list of texts, other than a
single empty one, that are trimmed and closed: each closes its strings, closes
no bracket before it opens one and leaves none open, and has no comma outside of
strings and brackets.
-/
theorem joined_arguments_are_cut_again :
    (∀ text : Text,
      splitArguments (Text.joinWith ", ".toList (splitArguments text)) = splitArguments text) ∧
    ∀ arguments : List Text,
      arguments ≠ [[]] →
      (∀ argument ∈ arguments, argument.trim = argument ∧ IsClosed argument) →
      splitArguments (Text.joinWith ", ".toList arguments) = arguments := by
  constructor
  · intro text
    have cut : IsCut .outside 0
        (((argumentPieces 0 ((Quoting.outside.mask text).zip text))).map Text.trim) :=
      (isCut_argumentPieces .outside 0 text).map keepsPieces_trim ⟨rfl, rfl⟩
    have trimmed : ∀ argument ∈ argumentsOf (argumentPieces 0 ((Quoting.outside.mask text).zip text)),
        argument.trim = argument :=
      fun _ => trim_of_mem_argumentsOf
    rw [splitArguments_eq text]
    unfold argumentsOf at trimmed ⊢
    split at trimmed
    · rename_i nothing
      rw [if_pos nothing]
      rfl
    · rename_i something
      rw [if_neg something, splitArguments_joinWith cut trimmed, if_neg something]
  · intro arguments several each
    cases arguments with
    | nil =>
        rfl
    | cons first others =>
        have cut : IsCut .outside 0 (first :: others) :=
          .of_isClosed fun argument member => (each argument member).2
        rw [splitArguments_joinWith cut fun argument member => (each argument member).1,
          if_neg several]

/-- Commas in a call, a string with an escape and an array part nothing; an empty argument stays. -/
theorem nested_arguments_are_cut_again :
    let arguments : List Text :=
      ["f(b, c)".toList, "\"x\\\",y\"".toList, [], "[1, (2, '(')]".toList]
    arguments ≠ [[]] ∧
      (∀ argument ∈ arguments, argument.trim = argument ∧ IsClosed argument) ∧
      splitArguments (Text.joinWith ", ".toList arguments) = arguments := by
  intro arguments
  have several : arguments ≠ [[]] := by
    decide
  have each : ∀ argument ∈ arguments, argument.trim = argument ∧ IsClosed argument := by
    decide
  exact ⟨several, each, joined_arguments_are_cut_again.2 arguments several each⟩

end ScriptUplift
