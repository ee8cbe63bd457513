import Mathlib.Data.List.TakeDrop
import Mathlib.Data.List.TakeWhile
import Mathlib.Tactic.Common
import ScriptUplift.Proofs.CallSites

namespace ScriptUplift

/-!
# Reading calls from where they start

Whether a call stands somewhere is decided by the text from there on, once it is
known that no string is open and no word runs into it.  Here a piece of code is
read character by character with what is open; the calls that are found with
positions are those that such a reading meets, in the same order.
-/

theorem ne_of_isQuoteMark
    {mark other : Char}
    (quote : isQuoteMark mark = true)
    (noQuote : isQuoteMark other = false) :
    mark ≠ other := by
  rintro rfl
  rw [quote] at noQuote
  cases noQuote

/-- A quotation mark is no part of a word. -/
theorem isIdentifierChar_of_isQuoteMark
    {character : Char}
    (quote : isQuoteMark character = true) :
    isIdentifierChar character = false := by
  simp only [isQuoteMark, Bool.or_eq_true, beq_iff_eq] at quote
  rcases quote with rfl | rfl <;> decide

theorem isQuoteMark_of_isIdentifierChar
    {character : Char}
    (word : isIdentifierChar character = true) :
    isQuoteMark character = false := by
  rw [Bool.eq_false_iff]
  intro quote
  rw [isIdentifierChar_of_isQuoteMark quote] at word
  cases word

/-- Indentation is no part of a word. -/
theorem isIndentChar_of_isIdentifierChar
    {character : Char}
    (word : isIdentifierChar character = true) :
    isIndentChar character = false := by
  rw [Bool.eq_false_iff]
  intro indents
  simp only [isIndentChar, Bool.or_eq_true, beq_iff_eq] at indents
  rcases indents with rfl | rfl <;> exact absurd word (by decide)

/-- What a reader that skips string literals is inside of. -/
inductive Quoting
  | outside
  | inside (mark : Char)
  /-- Inside, right after a backslash. -/
  | escaped (mark : Char)
  deriving Repr, DecidableEq

namespace Quoting

/-- What is open after one more character. -/
def step : Quoting → Char → Quoting
  | .outside, character =>
      if isQuoteMark character then .inside character else .outside
  | .inside mark, character =>
      if character = '\\' then .escaped mark
      else if character = mark then .outside
      else .inside mark
  | .escaped mark, _ =>
      .inside mark

/-- What is open after a text. -/
def through
    (quoting : Quoting)
    (text : Text) :
    Quoting :=
  text.foldl step quoting

@[simp] theorem through_nil
    (quoting : Quoting) :
    quoting.through [] = quoting :=
  rfl

@[simp] theorem through_cons
    (quoting : Quoting)
    (character : Char)
    (rest : Text) :
    quoting.through (character :: rest) = (quoting.step character).through rest :=
  rfl

theorem through_append
    (quoting : Quoting)
    (first second : Text) :
    quoting.through (first ++ second) = (quoting.through first).through second :=
  List.foldl_append

/-- What the reader shows of a character: itself outside of strings, and a mark inside. -/
def shown
    (quoting : Quoting)
    (character : Char) :
    Char :=
  if quoting = .outside ∧ isQuoteMark character = false then character else '"'

/-- What the reader shows of a text. -/
def mask : Quoting → Text → Text
  | _, [] =>
      []
  | quoting, character :: rest =>
      quoting.shown character :: mask (quoting.step character) rest

/-- The reader of an open literal. -/
def ofMark : Option Char → Quoting
  | none =>
      .outside
  | some mark =>
      .inside mark

theorem mask_ofMark
    (quote : Option Char)
    (text : Text) :
    mask (ofMark quote) text = maskStringsFrom quote text := by
  fun_induction maskStringsFrom quote text with
  | case1 =>
      rfl
  | case2 character rest opens inductionHypothesis =>
      simpa [ofMark, mask, shown, step, opens] using inductionHypothesis
  | case3 character rest plain inductionHypothesis =>
      simpa [ofMark, mask, shown, step, plain] using inductionHypothesis
  | case4 mark escaped tail inductionHypothesis =>
      simpa [ofMark, mask, shown, step] using inductionHypothesis
  | case5 mark =>
      simp [ofMark, mask, shown]
  | case6 mark character rest plain inductionHypothesis =>
      rw [← inductionHypothesis]
      by_cases closes : character = mark
      · subst closes
        simp [ofMark, mask, shown, step, plain]
      · simp [ofMark, mask, shown, step, plain, closes]

theorem mask_outside
    (text : Text) :
    mask .outside text = maskStrings text :=
  mask_ofMark none text

@[simp] theorem length_mask
    (quoting : Quoting)
    (text : Text) :
    (mask quoting text).length = text.length := by
  induction text generalizing quoting with
  | nil =>
      rfl
  | cons character rest inductionHypothesis =>
      simp [mask, inductionHypothesis]

/-- Whether a character is read as part of a word. -/
def isWordChar
    (quoting : Quoting)
    (character : Char) :
    Bool :=
  quoting == .outside && isIdentifierChar character

/-- A character is shown as part of a word when it is read as one. -/
theorem isIdentifierChar_shown
    (quoting : Quoting)
    (character : Char) :
    isIdentifierChar (quoting.shown character) = quoting.isWordChar character := by
  have markIsNone : isIdentifierChar '"' = false := by
    decide
  unfold shown isWordChar
  by_cases isOutside : quoting = .outside
  · by_cases quote : isQuoteMark character = true
    · simp [isOutside, quote, markIsNone, isIdentifierChar_of_isQuoteMark quote]
    · simp [isOutside, quote]
  · simp [isOutside, markIsNone]

/-- After a character of a word no string is open. -/
theorem step_of_isWordChar
    {quoting : Quoting}
    {character : Char}
    (word : quoting.isWordChar character = true) :
    quoting = .outside ∧ quoting.step character = .outside ∧
      isIdentifierChar character = true := by
  simp only [isWordChar, Bool.and_eq_true, beq_iff_eq] at word
  obtain ⟨rfl, isWord⟩ := word
  refine ⟨rfl, ?_, isWord⟩
  rw [step, isQuoteMark_of_isIdentifierChar isWord]
  rfl

end Quoting

/--
The ends of a text at each of which a word starts outside of strings.  The
argument in the middle tells whether the text continues a word.
-/
def wordStarts : Quoting → Bool → Text → List Text
  | _, _, [] =>
      []
  | quoting, inWord, character :: rest =>
      let word := quoting.isWordChar character
      let below := wordStarts (quoting.step character) word rest
      if word && !inWord then (character :: rest) :: below else below

theorem length_le_of_mem_wordStarts
    {quoting : Quoting}
    {inWord : Bool}
    {text start : Text}
    (member : start ∈ wordStarts quoting inWord text) :
    start.length ≤ text.length := by
  induction text generalizing quoting inWord with
  | nil =>
      simp [wordStarts] at member
  | cons character rest inductionHypothesis =>
      unfold wordStarts at member
      dsimp only at member
      split at member
      · rcases List.mem_cons.mp member with rfl | below
        · exact Nat.le_refl _
        · exact Nat.le_succ_of_le (inductionHypothesis below)
      · exact Nat.le_succ_of_le (inductionHypothesis member)

/-- The word an end of a text starts with, at its index in a text of the given end. -/
def wordAt
    (stop : Nat)
    (start : Text) :
    Token :=
  ⟨start.takeWhile isIdentifierChar, stop - start.length⟩

/-- The runs of identifier characters in what is shown of a text are the words that start in it. -/
theorem wordRuns_mask
    (position : Nat)
    (quoting : Quoting)
    (text : Text) :
    wordRuns position (quoting.mask text) =
      (wordStarts quoting false text).map (wordAt (position + text.length)) := by
  induction text generalizing position quoting with
  | nil =>
      rfl
  | cons character rest inductionHypothesis =>
      have later := inductionHypothesis (position + 1) (quoting.step character)
      have sameStop : position + 1 + rest.length = position + (character :: rest).length := by
        rw [List.length_cons]
        omega
      rw [sameStop] at later
      simp only [Quoting.mask, wordRuns, later, Quoting.isIdentifierChar_shown]
      cases word : quoting.isWordChar character with
      | false =>
          simp [wordStarts, word]
      | true =>
          obtain ⟨rfl, goesOn, isWord⟩ := Quoting.step_of_isWordChar word
          have shown : Quoting.outside.shown character = character :=
            if_pos ⟨rfl, isQuoteMark_of_isIdentifierChar isWord⟩
          rw [goesOn, shown]
          cases rest with
          | nil =>
              simp [wordStarts, word, wordAt, isWord]
          | cons second others =>
              cases secondWord : Quoting.outside.isWordChar second with
              | true =>
                  -- The character joins the word that begins right after it.
                  have next := (Quoting.step_of_isWordChar secondWord).2.2
                  simp [wordStarts, word, secondWord, goesOn, wordAt, isWord, next]
                  omega
              | false =>
                  have notNext : isIdentifierChar second = false := by
                    simpa [Quoting.isWordChar] using secondWord
                  simp only [wordStarts, word, secondWord, goesOn, wordAt, isWord, notNext,
                    Bool.false_and, Bool.true_and, Bool.not_false, Bool.false_eq_true, if_true,
                    if_false, List.map_cons, List.takeWhile_cons, List.length_cons]
                  have sameStart : position + (others.length + 1 + 1) - (others.length + 1 + 1) =
                      position := Nat.add_sub_cancel _ _
                  rw [sameStart]
                  split
                  · rename_i next runs first
                    -- The next word starts further right, as its first character is none of a word.
                    have apart : next.start ≠ position + 1 := by
                      obtain ⟨start, isStart, rfl⟩ : ∃ start ∈
                          wordStarts (Quoting.outside.step second) false others,
                          wordAt (position + (others.length + 1 + 1)) start = next := by
                        rw [← List.mem_map]
                        exact first ▸ List.mem_cons_self
                      have shorter := length_le_of_mem_wordStarts isStart
                      simp only [wordAt]
                      omega
                    rw [if_neg apart, first]
                  · rename_i first
                    rw [first]

/--
Read one character of an argument; nothing is told at the comma or the bracket
that ends it.  The number counts the brackets opened in the argument.
-/
def advance
    (quoting : Quoting)
    (depth : Nat)
    (character : Char) :
    Option (Quoting × Nat) :=
  if quoting = .outside then
    if isOpeningBracket character then some (.outside, depth + 1)
    else if isClosingBracket character then
      if depth = 0 then none else some (.outside, depth - 1)
    else if character = ',' ∧ depth = 0 then none
    else some (quoting.step character, depth)
  else
    some (quoting.step character, depth)

/-- Put a text in front of the first of the pieces that were read. -/
def pushPiece
    (text : Text) :
    List Text × Text → List Text × Text
  | (piece :: pieces, rest) =>
      ((text ++ piece) :: pieces, rest)
  | ([], rest) =>
      ([], rest)

/-- A character that goes on with an argument changes the depth as its shown form does. -/
theorem advance_eq_some
    {quoting next : Quoting}
    {depth nextDepth : Nat}
    {character : Char}
    (advanced : advance quoting depth character = some (next, nextDepth)) :
    next = quoting.step character ∧
      (nextDepth : Int) = depth + bracketStep (quoting.shown character) ∧
      ¬(quoting.shown character = ',' ∧ depth = 0) ∧
      (isClosingBracket (quoting.shown character) = true → depth ≠ 0) := by
  have noStep : bracketStep '"' = 0 := by
    decide
  have markNotClosing : isClosingBracket '"' = false := by
    decide
  unfold advance at advanced
  by_cases isOutside : quoting = .outside
  · subst isOutside
    rw [if_pos rfl] at advanced
    have opensNoString (bracket : isOpeningBracket character = true ∨
        isClosingBracket character = true) : isQuoteMark character = false := by
      simp only [isOpeningBracket, isClosingBracket, Bool.or_eq_true, beq_iff_eq] at bracket
      rcases bracket with ((rfl | rfl) | rfl) | ((rfl | rfl) | rfl) <;> decide
    split at advanced
    · rename_i opening
      have noQuote := opensNoString (.inl opening)
      obtain ⟨rfl, rfl⟩ := Prod.mk.inj (Option.some.inj advanced)
      have notComma : character ≠ ',' := by
        rintro rfl
        cases opening
      have notClosing : isClosingBracket character = false := by
        simp only [isOpeningBracket, Bool.or_eq_true, beq_iff_eq] at opening
        rcases opening with (rfl | rfl) | rfl <;> decide
      simp [Quoting.step, Quoting.shown, noQuote, bracketStep, opening, notComma, notClosing]
    · rename_i notOpening
      split at advanced
      · rename_i closing
        have noQuote := opensNoString (.inr closing)
        split at advanced
        · cases advanced
        · rename_i inside
          obtain ⟨rfl, rfl⟩ := Prod.mk.inj (Option.some.inj advanced)
          simp [Quoting.step, Quoting.shown, noQuote, bracketStep, notOpening, closing, inside]
          omega
      · rename_i notClosing
        split at advanced
        · cases advanced
        · rename_i inside
          obtain ⟨rfl, rfl⟩ := Prod.mk.inj (Option.some.inj advanced)
          refine ⟨rfl, ?_, ?_, ?_⟩
          · unfold Quoting.shown
            split
            · simp [bracketStep, notOpening, notClosing]
            · simp [noStep]
          · unfold Quoting.shown
            split
            · exact inside
            · simp
          · unfold Quoting.shown
            split
            · simp [notClosing]
            · simp [markNotClosing]
  · rw [if_neg isOutside] at advanced
    obtain ⟨rfl, rfl⟩ := Prod.mk.inj (Option.some.inj advanced)
    simp [Quoting.shown, isOutside, noStep, markNotClosing]

/-- An argument ends outside of strings and brackets, at a comma or a closing bracket. -/
theorem advance_eq_none
    {quoting : Quoting}
    {depth : Nat}
    {character : Char}
    (ended : advance quoting depth character = none) :
    quoting = .outside ∧ depth = 0 ∧ quoting.shown character = character ∧
      quoting.step character = .outside ∧
      (character = ',' ∨ isClosingBracket character = true ∧ character ≠ ',') := by
  unfold advance at ended
  split at ended
  · rename_i isOutside
    subst isOutside
    split at ended
    · cases ended
    · split at ended
      · rename_i closing
        split at ended
        · rename_i isZero
          have noQuote : isQuoteMark character = false ∧ character ≠ ',' := by
            simp only [isClosingBracket, Bool.or_eq_true, beq_iff_eq] at closing
            rcases closing with (rfl | rfl) | rfl <;> decide
          simp [isZero, Quoting.shown, Quoting.step, noQuote, closing]
        · cases ended
      · split at ended
        · rename_i isComma
          obtain ⟨rfl, isZero⟩ := isComma
          exact ⟨rfl, isZero, rfl, rfl, .inl rfl⟩
        · cases ended
  · cases ended

/--
Read arguments up to the bracket that closes their list: the pieces between the
commas, and what follows the bracket.
-/
def readPieces : Quoting → Nat → Text → Option (List Text × Text)
  | _, _, [] =>
      none
  | quoting, depth, character :: rest =>
      match advance quoting depth character with
      | some (next, nextDepth) =>
          (readPieces next nextDepth rest).map (pushPiece [character])
      | none =>
          if character = ',' then
            (readPieces quoting depth rest).map fun read => ([] :: read.1, read.2)
          else
            some ([[]], rest)

/-- The trimmed arguments of a list with these pieces; a blank list has none. -/
def argumentsOf
    (pieces : List Text) :
    List Text :=
  if pieces.map Text.trim = [[]] then [] else pieces.map Text.trim

theorem exists_of_mem_argumentsOf
    {pieces : List Text}
    {argument : Text}
    (member : argument ∈ argumentsOf pieces) :
    ∃ piece ∈ pieces, piece.trim = argument := by
  unfold argumentsOf at member
  split at member
  · cases member
  · exact List.mem_map.mp member

/-- The pieces of the argument list that a text opens, and what follows it. -/
def listAt : Text → Option (List Text × Text)
  | '(' :: body =>
      readPieces .outside 0 body
  | _ =>
      none

theorem listAt_of_ne
    {character : Char}
    (notBracket : character ≠ '(')
    (rest : Text) :
    listAt (character :: rest) = none := by
  unfold listAt
  split
  · rename_i shape
    exact absurd (List.cons.inj shape).1 notBracket
  · rfl

/-- The argument list of the call at the start of a text, if one stands there. -/
def callAt
    (callee start : Text) :
    Option (List Text × Text) :=
  if start.takeWhile isIdentifierChar = callee then
    listAt ((start.drop callee.length).dropWhile (· == ' '))
  else
    none

/-- A call of a name in a piece of code. -/
structure CallSite where
  /-- The code from the callee on. -/
  start : Text
  arguments : List Text
  /-- The code behind the closing bracket. -/
  rest : Text
  deriving Repr, DecidableEq

/-- The call of a name at the start of a text, as a site. -/
def siteAt
    (callee start : Text) :
    Option CallSite :=
  (callAt callee start).map fun read => ⟨start, argumentsOf read.1, read.2⟩

/-- The calls of a name in a piece of code, in order. -/
def callSites
    (callee code : Text) :
    List CallSite :=
  (wordStarts .outside false code).filterMap (siteAt callee)

/-- A character that does not close the list is passed on the way to the bracket that does. -/
theorem closingIndexFrom_cons
    {depth : Int}
    {character : Char}
    (inside : isClosingBracket character = true → depth ≠ 1)
    (rest : Text) :
    closingIndexFrom depth (character :: rest) =
      (closingIndexFrom (depth + bracketStep character) rest).map (· + 1) := by
  rw [closingIndexFrom]
  unfold bracketStep
  split
  · rfl
  · split
    · rename_i closing
      rw [if_neg (inside closing)]
      rfl
    · rw [Int.add_zero]

theorem argumentPieces_ne_nil
    (depth : Int)
    (characters : List (Char × Char)) :
    argumentPieces depth characters ≠ [] := by
  cases characters with
  | nil =>
      simp [argumentPieces]
  | cons pair rest =>
      unfold argumentPieces
      split
      · simp
      · split <;> simp

/-- What reading arguments finds out about a text. -/
def PiecesRead
    (quoting : Quoting)
    (depth : Nat)
    (text : Text) :
    Option (List Text × Text) → Prop
  | none =>
      closingIndexFrom (depth + 1) (quoting.mask text) = none
  | some (pieces, rest) =>
      ∃ (inner : Text) (closing : Char),
        text = inner ++ closing :: rest ∧
          closingIndexFrom (depth + 1) (quoting.mask text) = some inner.length ∧
          argumentPieces depth ((quoting.mask inner).zip inner) = pieces

namespace PiecesRead

/-- A comma of the list itself cuts it. -/
theorem comma
    {rest : Text}
    {found : Option (List Text × Text)}
    (below : PiecesRead .outside 0 rest found) :
    PiecesRead .outside 0 (',' :: rest) (found.map fun read => ([] :: read.1, read.2)) := by
  have passed (text : Text) : closingIndexFrom ((0 : Nat) + 1) (Quoting.outside.mask (',' :: text)) =
      (closingIndexFrom ((0 : Nat) + 1) (Quoting.outside.mask text)).map (· + 1) :=
    closingIndexFrom_cons (by decide) _
  cases found with
  | none =>
      exact (passed rest).trans (congrArg (Option.map (· + 1)) below)
  | some found =>
      obtain ⟨inner, closing, shape, closes, pieces⟩ := below
      refine ⟨',' :: inner, closing, congrArg (',' :: ·) shape, ?_, ?_⟩
      · exact (passed rest).trans (congrArg (Option.map (· + 1)) closes)
      · exact congrArg ([] :: ·) pieces

/-- The bracket that closes the list ends its only piece. -/
theorem closing
    {character : Char}
    (closes : isClosingBracket character = true)
    (shown : Quoting.outside.shown character = character)
    (rest : Text) :
    PiecesRead .outside 0 (character :: rest) (some ([[]], rest)) := by
  refine ⟨[], character, rfl, ?_, rfl⟩
  have notOpening : isOpeningBracket character = false := by
    simp only [isClosingBracket, Bool.or_eq_true, beq_iff_eq] at closes
    rcases closes with (rfl | rfl) | rfl <;> decide
  simp [Quoting.mask, shown, closingIndexFrom, notOpening, closes]

/-- Any other character goes on with the first piece. -/
theorem next
    {quoting nextQuoting : Quoting}
    {depth nextDepth : Nat}
    {character : Char}
    (advanced : advance quoting depth character = some (nextQuoting, nextDepth))
    {rest : Text}
    {found : Option (List Text × Text)}
    (below : PiecesRead nextQuoting nextDepth rest found) :
    PiecesRead quoting depth (character :: rest) (found.map (pushPiece [character])) := by
  obtain ⟨rfl, depthBelow, notComma, inside⟩ := advance_eq_some advanced
  have passed : closingIndexFrom (depth + 1) (quoting.mask (character :: rest)) =
      (closingIndexFrom (nextDepth + 1) ((quoting.step character).mask rest)).map (· + 1) := by
    have notLast (closing : isClosingBracket (quoting.shown character) = true) :
        (depth : Int) + 1 ≠ 1 := by
      have open' := inside closing
      omega
    rw [Quoting.mask, closingIndexFrom_cons notLast]
    congr 2
    omega
  cases found with
  | none =>
      exact passed.trans (congrArg (Option.map (· + 1)) below)
  | some found =>
      obtain ⟨pieces, after⟩ := found
      obtain ⟨inner, closing, shape, closes, cut⟩ := below
      refine ⟨character :: inner, closing, ?_, ?_, ?_⟩
      · cases pieces <;> exact congrArg (character :: ·) shape
      · exact passed.trans (congrArg (Option.map (· + 1)) closes)
      · have notCut : ¬(quoting.shown character = ',' ∧ (depth : Int) = 0) := by
          simpa using notComma
        rw [Quoting.mask, List.zip_cons_cons, argumentPieces, if_neg notCut, ← depthBelow, cut]
        cases pieces with
        | nil =>
            exact absurd cut (argumentPieces_ne_nil _ _)
        | cons piece others =>
            rfl

end PiecesRead

/-- Reading arguments finds the bracket that closes the list, and cuts it at its commas. -/
theorem piecesRead
    (quoting : Quoting)
    (depth : Nat)
    (text : Text) :
    PiecesRead quoting depth text (readPieces quoting depth text) := by
  induction text generalizing quoting depth with
  | nil =>
      rfl
  | cons character rest inductionHypothesis =>
      unfold readPieces
      cases advanced : advance quoting depth character with
      | none =>
          obtain ⟨rfl, rfl, shown, _, rfl | ⟨closes, notComma⟩⟩ := advance_eq_none advanced
          · exact .comma (inductionHypothesis .outside 0)
          · dsimp only
            rw [if_neg notComma]
            exact .closing closes shown rest
      | some next =>
          exact .next advanced (inductionHypothesis next.1 next.2)

/-- Nothing is left of a blank text when it is trimmed, and of a blank text only. -/
theorem Text.trim_eq_nil_iff
    (text : Text) :
    text.trim = [] ↔ text.isBlank = true := by
  unfold trim dropEndWhile
  rw [List.reverse_eq_nil_iff, List.dropWhile_eq_nil_iff, isBlank, List.all_eq_true]
  constructor
  · intro blankRest
    have nothing : text.dropWhile isBlankChar = [] := by
      cases rest : text.dropWhile isBlankChar with
      | nil =>
          rfl
      | cons first others =>
          have visible : isBlankChar first = false := by
            simpa [rest] using List.head?_dropWhile_not isBlankChar text
          rw [blankRest first (by simp [rest])] at visible
          cases visible
    exact List.dropWhile_eq_nil_iff.mp nothing
  · intro blank character member
    exact blank character ((List.dropWhile_suffix _).subset (List.mem_reverse.mp member))

/-- A list of arguments that is cut nowhere is its only piece. -/
theorem eq_of_argumentPieces_eq_singleton
    {depth : Int}
    {characters : List (Char × Char)}
    {piece : Text}
    (single : argumentPieces depth characters = [piece]) :
    characters.map Prod.snd = piece := by
  induction characters generalizing depth piece with
  | nil =>
      simpa [argumentPieces] using single
  | cons pair rest inductionHypothesis =>
      obtain ⟨masked, character⟩ := pair
      unfold argumentPieces at single
      split at single
      · exact absurd (List.cons.inj single).2 (argumentPieces_ne_nil _ _)
      · split at single
        · rename_i first others cut
          obtain ⟨rfl, rfl⟩ := List.cons.inj single
          rw [List.map_cons, inductionHypothesis cut]
        · rename_i cut
          exact absurd cut (argumentPieces_ne_nil _ _)

/-- A list of arguments without a comma is cut nowhere. -/
theorem argumentPieces_of_no_comma
    (depth : Int)
    {characters : List (Char × Char)}
    (noComma : ∀ pair ∈ characters, pair.1 ≠ ',') :
    argumentPieces depth characters = [characters.map Prod.snd] := by
  induction characters generalizing depth with
  | nil =>
      rfl
  | cons pair rest inductionHypothesis =>
      obtain ⟨own, others⟩ := List.forall_mem_cons.mp noComma
      rw [argumentPieces, if_neg (fun cut => own cut.1), inductionHypothesis _ others]
      rfl

theorem Quoting.shown_eq_comma
    {quoting : Quoting}
    {character : Char}
    (comma : quoting.shown character = ',') :
    character = ',' := by
  unfold shown at comma
  split at comma
  · exact comma
  · cases comma

theorem Quoting.exists_of_mem_zip_mask
    {quoting : Quoting}
    {text : Text}
    {pair : Char × Char}
    (member : pair ∈ (quoting.mask text).zip text) :
    pair.2 ∈ text ∧ ∃ reading : Quoting, pair.1 = reading.shown pair.2 := by
  induction text generalizing quoting with
  | nil =>
      cases member
  | cons character rest inductionHypothesis =>
      rw [mask, List.zip_cons_cons] at member
      rcases List.mem_cons.mp member with rfl | below
      · exact ⟨List.mem_cons_self, quoting, rfl⟩
      · obtain ⟨inRest, reading, isShown⟩ := inductionHypothesis below
        exact ⟨List.mem_cons_of_mem _ inRest, reading, isShown⟩

/-- The arguments of a list are its trimmed pieces, and a list has none when nothing is left. -/
theorem splitArguments_eq
    (inner : Text) :
    splitArguments inner =
      argumentsOf (argumentPieces 0 ((Quoting.outside.mask inner).zip inner)) := by
  have whole : ((Quoting.outside.mask inner).zip inner).map Prod.snd = inner :=
    List.map_snd_zip (by simp)
  have blankIff : (argumentPieces 0 ((Quoting.outside.mask inner).zip inner)).map Text.trim = [[]] ↔
      inner.isBlank = true := by
    constructor
    · intro nothing
      obtain ⟨piece, single, blank⟩ := List.map_eq_singleton_iff.mp nothing
      rw [← whole, eq_of_argumentPieces_eq_singleton single]
      exact (Text.trim_eq_nil_iff piece).mp blank
    · intro blank
      rw [argumentPieces_of_no_comma, whole, List.map_singleton, (Text.trim_eq_nil_iff inner).mpr blank]
      intro pair member comma
      obtain ⟨inInner, reading, isShown⟩ := Quoting.exists_of_mem_zip_mask member
      have isBlank := List.all_eq_true.mp blank _ inInner
      rw [Quoting.shown_eq_comma (isShown.symm.trans comma)] at isBlank
      cases isBlank
  unfold splitArguments argumentsOf
  rw [← Quoting.mask_outside]
  by_cases blank : inner.isBlank = true
  · rw [if_pos blank, if_pos (blankIff.mpr blank)]
  · rw [if_neg blank, if_neg (fun nothing => blank (blankIff.mp nothing))]

theorem suffix_of_mem_wordStarts
    {quoting : Quoting}
    {inWord : Bool}
    {text start : Text}
    (member : start ∈ wordStarts quoting inWord text) :
    start <:+ text := by
  induction text generalizing quoting inWord with
  | nil =>
      cases member
  | cons character rest inductionHypothesis =>
      unfold wordStarts at member
      dsimp only at member
      split at member
      · rcases List.mem_cons.mp member with rfl | below
        · exact List.suffix_refl _
        · exact (inductionHypothesis below).trans (List.suffix_cons _ _)
      · exact (inductionHypothesis member).trans (List.suffix_cons _ _)

theorem drop_length_takeWhile
    (class? : Char → Bool)
    (text : Text) :
    text.drop (text.takeWhile class?).length = text.dropWhile class? :=
  calc
    text.drop (text.takeWhile class?).length
      = (text.takeWhile class? ++ text.dropWhile class?).drop (text.takeWhile class?).length := by
        rw [List.takeWhile_append_dropWhile]
    _ = text.dropWhile class? :=
        List.drop_left

namespace Call

/-- A call in a piece of code, as a site. -/
def toSite
    (code : Text)
    (call : Call) :
    CallSite :=
  ⟨code.drop call.start, call.arguments code, code.drop (call.closeAt + 1)⟩

/-- What stands behind a bracket that opens an argument list decides where the list ends. -/
theorem closingIndex_eq
    {code : Text}
    {openAt : Nat}
    {bracket : Char}
    (opens : isOpeningBracket bracket = true)
    {body : Text}
    (opening : code.drop openAt = bracket :: body) :
    closingIndex code openAt =
      (closingIndexFrom 1 (Quoting.outside.mask body)).map (· + (openAt + 1)) := by
  have passed : closingIndexFrom 0 (maskStrings (bracket :: body)) =
      (closingIndexFrom 1 (Quoting.outside.mask body)).map (· + 1) := by
    rw [← Quoting.mask_outside]
    simp only [isOpeningBracket, Bool.or_eq_true, beq_iff_eq] at opens
    rcases opens with (rfl | rfl) | rfl <;> rfl
  rw [closingIndex, opening, passed, Option.map_map]
  congr 1
  funext index
  simp only [Function.comp_apply]
  omega

/-- The list that a bracket opens ends where the bracket closes, and its pieces are its arguments. -/
theorem map_closingIndex
    {code body : Text}
    {openAt : Nat}
    (atBracket : code.drop openAt = '(' :: body) :
    ((closingIndex code openAt).map fun closeAt =>
        (splitArguments ((code.take closeAt).drop (openAt + 1)), code.drop (closeAt + 1))) =
      (readPieces .outside 0 body).map fun read => (argumentsOf read.1, read.2) := by
  rw [closingIndex_eq (by decide) atBracket]
  have read := piecesRead .outside 0 body
  cases found : readPieces .outside 0 body with
  | none =>
      rw [found] at read
      have noBracket : closingIndexFrom 1 (Quoting.outside.mask body) = none := read
      rw [noBracket]
      rfl
  | some result =>
      obtain ⟨pieces, rest⟩ := result
      rw [found] at read
      obtain ⟨inner, closing, rfl, closes, cut⟩ := read
      have closesAt : closingIndexFrom 1 (Quoting.outside.mask (inner ++ closing :: rest)) =
          some inner.length :=
        closes
      have behindBracket : code.drop (openAt + 1) = inner ++ closing :: rest := by
        rw [← List.drop_drop, atBracket]
        rfl
      have innerText : (code.take (inner.length + (openAt + 1))).drop (openAt + 1) = inner := by
        rw [List.drop_take, behindBracket, Nat.add_sub_cancel, List.take_left']
        rfl
      have restText : code.drop (inner.length + (openAt + 1) + 1) = rest := by
        rw [Nat.add_right_comm, Nat.add_comm (inner.length + 1), ← List.drop_drop, behindBracket]
        simp
      rw [closesAt, ← cut]
      simp only [Option.map_some, innerText, restText, splitArguments_eq]
      rfl

/-- The call at a word is the one that is read from the word on. -/
theorem map_ofToken?
    {callee code start : Text}
    (suffix : start <:+ code)
    (named : start.takeWhile isIdentifierChar = callee) :
    (ofToken? code (wordAt code.length start)).map (toSite code) = siteAt callee start := by
  obtain ⟨above, rfl⟩ := suffix
  have sameStart : (above ++ start).length - start.length = above.length := by
    simp
  have atStart : (above ++ start).drop above.length = start :=
    List.drop_left
  unfold ofToken? siteAt callAt
  simp only [wordAt, Token.stop, named, sameStart, if_true]
  have behind : (above ++ start).drop (above.length + callee.length) = start.drop callee.length := by
    rw [← List.drop_drop, atStart]
  rw [behind]
  have atBracket : (above ++ start).drop (above.length + callee.length +
      ((start.drop callee.length).takeWhile (· == ' ')).length) =
      (start.drop callee.length).dropWhile (· == ' ') := by
    rw [← List.drop_drop, behind, drop_length_takeWhile]
  generalize above.length + callee.length +
    ((start.drop callee.length).takeWhile (· == ' ')).length = openAt at atBracket ⊢
  generalize above ++ start = code at atStart atBracket ⊢
  rw [atBracket]
  split
  · rename_i opening
    obtain ⟨body, shape⟩ := List.head?_eq_some_iff.mp opening
    rw [shape] at atBracket ⊢
    have list := congrArg (Option.map fun read => (⟨start, read.1, read.2⟩ : CallSite))
      (map_closingIndex atBracket)
    simp only [Option.map_map, Function.comp_def, toSite, Call.arguments, Call.inner, atStart]
      at list ⊢
    exact list
  · rename_i notOpening
    cases behindWord : (start.drop callee.length).dropWhile (· == ' ') with
    | nil =>
        rfl
    | cons character rest =>
        have notBracket : character ≠ '(' := by
          simpa [behindWord] using notOpening
        rw [listAt_of_ne notBracket]
        rfl

/-- The calls of a name that are found in code are those that are read in it. -/
theorem map_findAll
    {callee : Text}
    (named : callee.head?.any isDigitChar = false)
    (code : Text) :
    (findAll (· == callee) code).map (toSite code) = callSites callee code := by
  have words : (identifiers code).filter (·.text == callee) =
      ((wordStarts .outside false code).map (wordAt code.length)).filter (·.text == callee) := by
    unfold identifiers
    rw [← Quoting.mask_outside, wordRuns_mask, Nat.zero_add, List.filter_filter]
    refine List.filter_congr fun token _ => ?_
    by_cases isCallee : token.text = callee
    · simp [isCallee, named]
    · simp [isCallee]
  unfold findAll callSites
  rw [words, List.filter_map, List.filterMap_map, List.map_filterMap, List.filterMap_filter]
  refine List.filterMap_congr fun start member => ?_
  dsimp only [Function.comp]
  by_cases isCallee : start.takeWhile isIdentifierChar = callee
  · rw [if_pos (by simpa [wordAt] using isCallee)]
    exact map_ofToken? (suffix_of_mem_wordStarts member) isCallee
  · rw [if_neg (by simpa [wordAt] using isCallee)]
    simp [siteAt, callAt, isCallee]

end Call

end ScriptUplift
