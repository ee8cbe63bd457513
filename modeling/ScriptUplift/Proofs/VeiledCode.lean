import Mathlib.Data.List.DropRight
import Mathlib.Data.List.Forall2
import Mathlib.Tactic.Common
import ScriptUplift.Diagnostics.Legacy
import ScriptUplift.Proofs.PureCode

namespace ScriptUplift

/-!
# Code that differs in strings only

The search for words, brackets and commas skips string literals.  Two pieces of
code are related here when they differ in nothing but what stands in literals,
as the search reads them.  The relation is carried through each layer of the
search: words start at related places, arguments are cut into related pieces,
and one piece is a literal when the other is.  So the same leftovers of the old
dialect are found in both.
-/

/-- Whether a character neither delimits nor escapes anything in a string. -/
def isOrdinary
    (character : Char) :
    Bool :=
  !isQuoteMark character && character != '\\'

theorem isOrdinary_iff
    {character : Char} :
    isOrdinary character = true ↔ isQuoteMark character = false ∧ character ≠ '\\' := by
  simp [isOrdinary]

theorem isOrdinary_of_isPlainChar
    {character : Char}
    (plain : isPlainChar character = true) :
    isOrdinary character = true :=
  isOrdinary_iff.mpr ⟨isQuoteMark_of_isPlainChar plain, ne_of_isPlainChar plain (by decide)⟩

namespace Quoting

/-- What is open after a character that means nothing to the search. -/
def settle : Quoting → Quoting
  | .outside =>
      .outside
  | .inside mark | .escaped mark =>
      .inside mark

theorem isProper_settle
    {quoting : Quoting}
    (proper : quoting.IsProper) :
    quoting.settle.IsProper := by
  cases quoting <;> exact proper

theorem settle_eq_outside_iff
    (quoting : Quoting) :
    quoting.settle = .outside ↔ quoting = .outside := by
  cases quoting <;> simp [settle]

theorem step_inside_mark
    {mark : Char}
    (notEscape : mark ≠ '\\') :
    (Quoting.inside mark).step mark = .outside := by
  simp [step, notEscape]

theorem step_inside_of_ne
    {mark character : Char}
    (notMark : character ≠ mark)
    (notEscape : character ≠ '\\') :
    (Quoting.inside mark).step character = .inside mark := by
  simp [step, notMark, notEscape]

theorem step_of_isOrdinary
    {quoting : Quoting}
    (proper : quoting.IsProper)
    {character : Char}
    (ordinary : isOrdinary character = true) :
    quoting.step character = quoting.settle := by
  obtain ⟨noQuote, notEscape⟩ := isOrdinary_iff.mp ordinary
  cases quoting with
  | outside =>
      simp [step, settle, noQuote]
  | inside mark =>
      have notMark : character ≠ mark := by
        rintro rfl
        rw [show isQuoteMark character = true from proper] at noQuote
        cases noQuote
      exact step_inside_of_ne notMark notEscape
  | escaped mark =>
      rfl

/-- Whether the literal that is open stays open to the end of a text. -/
def staysInside : Quoting → Text → Bool
  | quoting, [] =>
      quoting != .outside
  | quoting, character :: rest =>
      quoting != .outside && staysInside (quoting.step character) rest

theorem staysInside_cons
    {quoting : Quoting}
    {character : Char}
    {rest : Text} :
    quoting.staysInside (character :: rest) = true ↔
      quoting ≠ .outside ∧ (quoting.step character).staysInside rest = true := by
  simp [staysInside]

theorem ne_outside_of_staysInside
    {quoting : Quoting}
    {text : Text}
    (stays : quoting.staysInside text = true) :
    quoting ≠ .outside := by
  cases text with
  | nil =>
      simpa [staysInside] using stays
  | cons character rest =>
      exact (staysInside_cons.mp stays).1

theorem staysInside_of_append
    {quoting : Quoting}
    {front back : Text}
    (stays : quoting.staysInside (front ++ back) = true) :
    quoting.staysInside front = true := by
  induction front generalizing quoting with
  | nil =>
      simpa [staysInside] using ne_outside_of_staysInside stays
  | cons character rest inductionHypothesis =>
      obtain ⟨inside, below⟩ := staysInside_cons.mp stays
      exact staysInside_cons.mpr ⟨inside, inductionHypothesis below⟩

/-- Whether two texts are the same but for ordinary characters in strings. -/
def hides : Quoting → Text → Text → Bool
  | _, [], [] =>
      true
  | quoting, first :: rest, second :: others =>
      (first == second || quoting != .outside && isOrdinary first && isOrdinary second) &&
        hides (quoting.step first) rest others
  | _, _, _ =>
      false

end Quoting

/--
Two texts that are the same but for what stands in strings, read with what is
open.  A literal that is never closed may end differently in the two.
-/
inductive Veiled : Quoting → Text → Text → Prop
  | nil
      (quoting : Quoting) :
      Veiled quoting [] []
  | same
      {quoting : Quoting}
      (character : Char)
      {rest others : Text}
      (below : Veiled (quoting.step character) rest others) :
      Veiled quoting (character :: rest) (character :: others)
  | hidden
      {quoting : Quoting}
      (inside : quoting ≠ .outside)
      {first second : Char}
      (firstOrdinary : isOrdinary first = true)
      (secondOrdinary : isOrdinary second = true)
      {rest others : Text}
      (below : Veiled quoting.settle rest others) :
      Veiled quoting (first :: rest) (second :: others)
  | openEnd
      {quoting : Quoting}
      {text other : Text}
      (stays : quoting.staysInside text = true)
      (otherStays : quoting.staysInside other = true) :
      Veiled quoting text other

/-- Texts that differ only in ordinary characters of strings are related. -/
theorem Quoting.veiled_of_hides
    {quoting : Quoting}
    (proper : quoting.IsProper)
    {text other : Text}
    (hides : quoting.hides text other = true) :
    Veiled quoting text other := by
  induction text generalizing quoting other with
  | nil =>
      cases other with
      | nil =>
          exact .nil quoting
      | cons second others =>
          cases hides
  | cons first rest inductionHypothesis =>
      cases other with
      | nil =>
          cases hides
      | cons second others =>
          rw [Quoting.hides, Bool.and_eq_true] at hides
          obtain ⟨head, tail⟩ := hides
          have below := inductionHypothesis (Quoting.isProper_step proper first) tail
          by_cases equal : first = second
          · subst equal
            exact .same first below
          · simp only [beq_eq_false_iff_ne.mpr equal, Bool.false_or, Bool.and_eq_true,
              bne_iff_ne] at head
            obtain ⟨⟨inside, firstOrdinary⟩, secondOrdinary⟩ := head
            rw [Quoting.step_of_isOrdinary proper firstOrdinary] at below
            exact .hidden inside firstOrdinary secondOrdinary below

namespace Veiled

/-- Outside of strings related texts begin alike. -/
theorem outside_cases
    {text other : Text}
    (veiled : Veiled .outside text other) :
    (text = [] ∧ other = []) ∨
      ∃ character rest others,
        text = character :: rest ∧ other = character :: others ∧
          Veiled (Quoting.outside.step character) rest others := by
  cases veiled with
  | nil =>
      exact .inl ⟨rfl, rfl⟩
  | same character below =>
      exact .inr ⟨character, _, _, rfl, rfl, below⟩
  | hidden inside =>
      exact absurd rfl inside
  | openEnd stays =>
      exact absurd rfl (Quoting.ne_outside_of_staysInside stays)

theorem eq_nil_iff
    {text other : Text}
    (veiled : Veiled .outside text other) :
    text = [] ↔ other = [] := by
  rcases veiled.outside_cases with ⟨rfl, rfl⟩ | ⟨character, rest, others, rfl, rfl, _⟩
  · rfl
  · simp

theorem symm
    {quoting : Quoting}
    {text other : Text}
    (veiled : Veiled quoting text other) :
    Veiled quoting other text := by
  induction veiled with
  | nil quoting =>
      exact .nil quoting
  | same character _ inductionHypothesis =>
      exact .same character inductionHypothesis
  | hidden inside firstOrdinary secondOrdinary _ inductionHypothesis =>
      exact .hidden inside secondOrdinary firstOrdinary inductionHypothesis
  | openEnd stays otherStays =>
      exact .openEnd otherStays stays

/-! ## Words -/

/-- Related texts begin with the same characters of a class that opens no string. -/
theorem span
    {class? : Char → Bool}
    (plain : ∀ {character}, class? character = true → isPlainChar character = true)
    {text other : Text}
    (veiled : Veiled .outside text other) :
    text.takeWhile class? = other.takeWhile class? ∧
      Veiled .outside (text.dropWhile class?) (other.dropWhile class?) := by
  induction text generalizing other with
  | nil =>
      obtain rfl := veiled.eq_nil_iff.mp rfl
      exact ⟨rfl, veiled⟩
  | cons character rest inductionHypothesis =>
      rcases veiled.outside_cases with ⟨shape, _⟩ | ⟨_, _, others, shape, rfl, below⟩
      · cases shape
      · obtain ⟨rfl, rfl⟩ := List.cons.inj shape
        by_cases member : class? character = true
        · have start : Quoting.outside.IsProper :=
            trivial
          rw [Quoting.step_of_isOrdinary start (isOrdinary_of_isPlainChar (plain member))] at below
          obtain ⟨sameWord, sameRest⟩ := inductionHypothesis below
          rw [List.takeWhile_cons_of_pos member, List.takeWhile_cons_of_pos member,
            List.dropWhile_cons_of_pos member, List.dropWhile_cons_of_pos member, sameWord]
          exact ⟨rfl, sameRest⟩
        · rw [List.takeWhile_cons_of_neg member, List.takeWhile_cons_of_neg member,
            List.dropWhile_cons_of_neg member, List.dropWhile_cons_of_neg member]
          exact ⟨rfl, veiled⟩

theorem word
    {text other : Text}
    (veiled : Veiled .outside text other) :
    text.takeWhile isIdentifierChar = other.takeWhile isIdentifierChar ∧
      Veiled .outside (text.dropWhile isIdentifierChar) (other.dropWhile isIdentifierChar) :=
  veiled.span isPlainChar_of_isIdentifierChar

theorem dropBlanks
    {text other : Text}
    (veiled : Veiled .outside text other) :
    Veiled .outside (text.dropWhile isBlankChar) (other.dropWhile isBlankChar) :=
  (veiled.span isPlainChar_of_isBlankChar).2

theorem firstWord_eq
    {text other : Text}
    (veiled : Veiled .outside text other) :
    (firstWord text).1 = (firstWord other).1 ∧
      Veiled .outside (firstWord text).2 (firstWord other).2 := by
  have flush : Veiled .outside text.dropIndentation other.dropIndentation :=
    (veiled.span fun indents =>
      isPlainChar_of_isBlankChar (isBlankChar_of_isIndentChar indents)).2
  exact flush.word

/-- No word starts in a literal. -/
theorem wordStarts_of_staysInside
    {quoting : Quoting}
    {text : Text}
    (stays : quoting.staysInside text = true)
    (inWord : Bool) :
    wordStarts quoting inWord text = [] := by
  induction text generalizing quoting inWord with
  | nil =>
      rfl
  | cons character rest inductionHypothesis =>
      obtain ⟨inside, below⟩ := Quoting.staysInside_cons.mp stays
      have noWord : quoting.isWordChar character = false := by
        simp [Quoting.isWordChar, inside]
      simp [wordStarts, noWord, inductionHypothesis below]

/-- Words start at related places. -/
theorem forall₂_wordStarts
    {quoting : Quoting}
    (proper : quoting.IsProper)
    {text other : Text}
    (veiled : Veiled quoting text other)
    (inWord : Bool) :
    List.Forall₂ (Veiled .outside) (wordStarts quoting inWord text)
      (wordStarts quoting inWord other) := by
  induction veiled generalizing inWord with
  | nil =>
      exact .nil
  | @same quoting character rest others below inductionHypothesis =>
      have later := inductionHypothesis (Quoting.isProper_step proper character)
        (quoting.isWordChar character)
      unfold wordStarts
      dsimp only
      split
      · rename_i starts
        obtain ⟨isWord, _⟩ := Bool.and_eq_true_iff.mp starts
        obtain ⟨rfl, _, _⟩ := Quoting.step_of_isWordChar isWord
        exact .cons (.same character below) later
      · exact later
  | @hidden quoting inside first second firstOrdinary secondOrdinary rest others below
      inductionHypothesis =>
      have noWord (character : Char) : quoting.isWordChar character = false := by
        simp [Quoting.isWordChar, inside]
      have later := inductionHypothesis (Quoting.isProper_settle proper) false
      unfold wordStarts
      simpa [noWord, Quoting.step_of_isOrdinary proper firstOrdinary,
        Quoting.step_of_isOrdinary proper secondOrdinary] using later
  | openEnd stays otherStays =>
      rw [wordStarts_of_staysInside stays, wordStarts_of_staysInside otherStays]
      exact .nil

/-- What is told from where a word starts is told of related texts alike. -/
theorem map_wordStarts_eq
    {value : Type}
    {tell : Text → value}
    (same : ∀ text other, Veiled .outside text other → tell text = tell other)
    {text other : Text}
    (veiled : Veiled .outside text other) :
    (wordStarts .outside false text).map tell = (wordStarts .outside false other).map tell := by
  have start : Quoting.outside.IsProper :=
    trivial
  rw [← List.forall₂_eq_eq_eq, List.forall₂_map_left_iff, List.forall₂_map_right_iff]
  exact (veiled.forall₂_wordStarts start false).imp same

/-- Related texts have the same words. -/
theorem wordsOf_eq
    {text other : Text}
    (veiled : Veiled .outside text other) :
    wordsOf text = wordsOf other := by
  have fromStarts (code : Text) : wordsOf code =
      ((wordStarts .outside false code).map (·.takeWhile isIdentifierChar)).filter
        fun word => !word.head?.any isDigitChar := by
    unfold wordsOf identifiers
    rw [← Quoting.mask_outside, wordRuns_mask, Nat.zero_add, List.filter_map, List.filter_map,
      List.map_map]
    rfl
  rw [fromStarts, fromStarts, veiled.map_wordStarts_eq fun _ _ related => related.word.1]

end Veiled

/-! ## Blanks at the end -/

theorem Text.dropEndWhile_cons
    (class? : Char → Bool)
    (character : Char)
    (rest : Text) :
    Text.dropEndWhile class? (character :: rest) =
      if Text.dropEndWhile class? rest = [] ∧ class? character = true then []
      else character :: Text.dropEndWhile class? rest := by
  unfold dropEndWhile
  rw [List.reverse_cons, List.dropWhile_append]
  by_cases nothing : rest.reverse.dropWhile class? = []
  · by_cases member : class? character = true <;> simp [nothing, member]
  · simp [nothing]

namespace Veiled

/-- A literal that one text ends in stays open in the other. -/
theorem staysInside_of_nil
    {quoting : Quoting}
    (inside : quoting ≠ .outside)
    {other : Text}
    (veiled : Veiled quoting [] other) :
    quoting.staysInside other = true := by
  cases veiled with
  | nil =>
      simpa [Quoting.staysInside] using inside
  | openEnd _ otherStays =>
      exact otherStays

/-- When one of two related texts is dropped in a literal, the other stays related. -/
theorem nil_cons
    {quoting : Quoting}
    (proper : quoting.IsProper)
    (inside : quoting ≠ .outside)
    {character : Char}
    (ordinary : isOrdinary character = true)
    {others : Text}
    (below : Veiled quoting.settle [] others) :
    Veiled quoting [] (character :: others) := by
  have goesOn : quoting.settle ≠ .outside :=
    (Quoting.settle_eq_outside_iff quoting).not.mpr inside
  refine .openEnd ?_ (Quoting.staysInside_cons.mpr ⟨inside, ?_⟩)
  · simpa [Quoting.staysInside] using inside
  · rw [Quoting.step_of_isOrdinary proper ordinary]
    exact staysInside_of_nil goesOn below

/-- In a literal, blanks at the end are dropped behind characters that may differ. -/
theorem dropEndBlanks_inside
    {quoting : Quoting}
    (proper : quoting.IsProper)
    (inside : quoting ≠ .outside)
    {first second : Char}
    (firstOrdinary : isOrdinary first = true)
    (secondOrdinary : isOrdinary second = true)
    {rest others : Text}
    (below : Veiled quoting.settle (Text.dropEndWhile isBlankChar rest)
      (Text.dropEndWhile isBlankChar others)) :
    Veiled quoting (Text.dropEndWhile isBlankChar (first :: rest))
      (Text.dropEndWhile isBlankChar (second :: others)) := by
  rw [Text.dropEndWhile_cons, Text.dropEndWhile_cons]
  split
  · rename_i dropped
    split
    · exact .nil _
    · rw [dropped.1] at below
      exact nil_cons proper inside secondOrdinary below
  · split
    · rename_i dropped
      rw [dropped.1] at below
      exact (nil_cons proper inside firstOrdinary below.symm).symm
    · exact .hidden inside firstOrdinary secondOrdinary below

theorem dropEndBlanks
    {quoting : Quoting}
    (proper : quoting.IsProper)
    {text other : Text}
    (veiled : Veiled quoting text other) :
    Veiled quoting (Text.dropEndWhile isBlankChar text) (Text.dropEndWhile isBlankChar other) := by
  induction veiled with
  | nil quoting =>
      exact .nil quoting
  | @same quoting character rest others below inductionHypothesis =>
      have trimmed := inductionHypothesis (Quoting.isProper_step proper character)
      by_cases blank : isBlankChar character = true
      · have ordinary := isOrdinary_of_isPlainChar (isPlainChar_of_isBlankChar blank)
        have settled := Quoting.step_of_isOrdinary proper ordinary
        rw [settled] at trimmed
        by_cases outside : quoting = .outside
        · -- Nothing is open at the blank: both texts end at it or none does.
          subst outside
          have together := trimmed.eq_nil_iff
          rw [Text.dropEndWhile_cons, Text.dropEndWhile_cons]
          by_cases nothing : Text.dropEndWhile isBlankChar rest = []
          · rw [if_pos ⟨nothing, blank⟩, if_pos ⟨together.mp nothing, blank⟩]
            exact .nil _
          · rw [if_neg fun both => nothing both.1, if_neg fun both => nothing (together.mpr both.1)]
            refine .same character ?_
            rw [settled]
            exact trimmed
        · exact dropEndBlanks_inside proper outside ordinary ordinary trimmed
      · rw [Text.dropEndWhile_cons, Text.dropEndWhile_cons, if_neg fun both => blank both.2,
          if_neg fun both => blank both.2]
        exact .same character trimmed
  | hidden inside firstOrdinary secondOrdinary _ inductionHypothesis =>
      exact dropEndBlanks_inside proper inside firstOrdinary secondOrdinary
        (inductionHypothesis (Quoting.isProper_settle proper))
  | @openEnd quoting text other stays otherStays =>
      obtain ⟨tail, shape⟩ : Text.dropEndWhile isBlankChar text <+: text :=
        List.rdropWhile_prefix isBlankChar text
      obtain ⟨otherTail, otherShape⟩ : Text.dropEndWhile isBlankChar other <+: other :=
        List.rdropWhile_prefix isBlankChar other
      rw [← shape] at stays
      rw [← otherShape] at otherStays
      exact .openEnd (Quoting.staysInside_of_append stays)
        (Quoting.staysInside_of_append otherStays)

/-- Related texts are related without the blanks around them. -/
theorem trim
    {text other : Text}
    (veiled : Veiled .outside text other) :
    Veiled .outside text.trim other.trim := by
  have start : Quoting.outside.IsProper :=
    trivial
  exact dropEndBlanks start veiled.dropBlanks

end Veiled

/-! ## Arguments -/

/-- Two readings of arguments that both fail, or whose first pieces are related. -/
inductive ReadVeiled
    (quoting : Quoting) :
    Option (List Text × Text) → Option (List Text × Text) → Prop
  | unread :
      ReadVeiled quoting none none
  | read
      {first second : Text}
      (head : Veiled quoting first second)
      (pieces others : List Text)
      (rest otherRest : Text) :
      ReadVeiled quoting (some (first :: pieces, rest)) (some (second :: others, otherRest))

namespace ReadVeiled

variable {first second : Option (List Text × Text)}

/-- Two characters that keep texts related keep the first pieces related. -/
theorem push
    {quoting next : Quoting}
    {character other : Char}
    (keeps : ∀ {piece otherPiece : Text}, Veiled next piece otherPiece →
      Veiled quoting (character :: piece) (other :: otherPiece))
    (veiled : ReadVeiled next first second) :
    ReadVeiled quoting (first.map (pushPiece [character])) (second.map (pushPiece [other])) := by
  cases veiled with
  | unread =>
      exact .unread
  | read head pieces others rest otherRest =>
      exact .read (keeps head) pieces others rest otherRest

/-- In front of a comma nothing is left of the first pieces. -/
theorem comma
    (quoting : Quoting)
    {next : Quoting}
    (veiled : ReadVeiled next first second) :
    ReadVeiled quoting (first.map fun read => ([] :: read.1, read.2))
      (second.map fun read => ([] :: read.1, read.2)) := by
  cases veiled with
  | unread =>
      exact .unread
  | read head pieces others rest otherRest =>
      exact .read (.nil quoting) _ _ rest otherRest

end ReadVeiled

namespace Veiled

/-- No argument ends in a literal that stays open. -/
theorem readPieces_of_staysInside
    {quoting : Quoting}
    {text : Text}
    (stays : quoting.staysInside text = true)
    (depth : Nat) :
    readPieces quoting depth text = none := by
  induction text generalizing quoting with
  | nil =>
      rfl
  | cons character rest inductionHypothesis =>
      obtain ⟨inside, below⟩ := Quoting.staysInside_cons.mp stays
      simp [readPieces, advance, inside, inductionHypothesis below]

/-- Arguments of related texts begin with related pieces. -/
theorem readPieces_veiled
    {quoting : Quoting}
    (proper : quoting.IsProper)
    {text other : Text}
    (veiled : Veiled quoting text other)
    (depth : Nat) :
    ReadVeiled quoting (readPieces quoting depth text) (readPieces quoting depth other) := by
  induction veiled generalizing depth with
  | nil =>
      exact .unread
  | @same quoting character rest others below inductionHypothesis =>
      unfold readPieces
      cases advanced : advance quoting depth character with
      | some next =>
          obtain ⟨nextQuoting, nextDepth⟩ := next
          obtain ⟨rfl, _, _, _⟩ := advance_eq_some advanced
          dsimp only
          have later := inductionHypothesis (Quoting.isProper_step proper character) nextDepth
          exact later.push (.same character)
      | none =>
          obtain ⟨rfl, rfl, _, goesOn, _⟩ := advance_eq_none advanced
          dsimp only
          split
          · have later := inductionHypothesis (Quoting.isProper_step proper character) 0
            rw [goesOn] at later
            exact later.comma .outside
          · exact .read (.nil _) [] [] rest others
  | @hidden quoting inside first second firstOrdinary secondOrdinary rest others below
      inductionHypothesis =>
      unfold readPieces
      simp only [advance, if_neg inside, Quoting.step_of_isOrdinary proper firstOrdinary,
        Quoting.step_of_isOrdinary proper secondOrdinary]
      exact (inductionHypothesis (Quoting.isProper_settle proper) depth).push
        (.hidden inside firstOrdinary secondOrdinary)
  | openEnd stays otherStays =>
      rw [readPieces_of_staysInside stays, readPieces_of_staysInside otherStays]
      exact .unread

/-- The argument lists that related texts open begin with related pieces. -/
theorem listAt_veiled
    {text other : Text}
    (veiled : Veiled .outside text other) :
    ReadVeiled .outside (listAt text) (listAt other) := by
  have start : Quoting.outside.IsProper :=
    trivial
  rcases veiled.outside_cases with ⟨rfl, rfl⟩ | ⟨character, rest, others, rfl, rfl, below⟩
  · exact .unread
  · by_cases bracket : character = '('
    · subst bracket
      exact readPieces_veiled start below 0
    · rw [listAt_of_ne bracket, listAt_of_ne bracket]
      exact .unread

/-- The calls at the start of related texts have related first arguments. -/
theorem callAt_veiled
    {text other : Text}
    (veiled : Veiled .outside text other)
    (callee : Text) :
    ReadVeiled .outside (callAt callee text) (callAt callee other) := by
  have plainSpace {character : Char} (space : (character == ' ') = true) :
      isPlainChar character = true := by
    rw [beq_iff_eq.mp space]
    decide
  obtain ⟨sameWord, behind⟩ := veiled.word
  unfold callAt
  rw [← sameWord]
  split
  · rename_i named
    rw [← drop_length_takeWhile, ← drop_length_takeWhile, ← sameWord, named] at behind
    exact (behind.span plainSpace).2.listAt_veiled
  · exact .unread

end Veiled

/-! ## Literals -/

/-- Whether a text ends with the first of its marks and has no backslash above it. -/
def endsAtMark
    (mark : Char) :
    Text → Bool
  | [] =>
      false
  | character :: rest =>
      if character = mark then rest.isEmpty
      else character != '\\' && endsAtMark mark rest

theorem endsAtMark_iff
    (mark : Char)
    (text : Text) :
    endsAtMark mark text = true ↔
      text.getLast? = some mark ∧ mark ∉ text.dropLast ∧ '\\' ∉ text.dropLast := by
  induction text with
  | nil =>
      simp [endsAtMark]
  | cons character rest inductionHypothesis =>
      unfold endsAtMark
      cases rest with
      | nil =>
          by_cases isMark : character = mark <;> simp [isMark, endsAtMark]
      | cons second others =>
          rw [List.getLast?_cons_cons, List.dropLast_cons_cons]
          by_cases isMark : character = mark
          · simp [isMark]
          · rw [if_neg isMark, Bool.and_eq_true, inductionHypothesis, bne_iff_ne]
            simp only [List.mem_cons, not_or]
            constructor
            · rintro ⟨notEscape, last, noMark, noEscape⟩
              exact ⟨last, ⟨Ne.symm isMark, noMark⟩, Ne.symm notEscape, noEscape⟩
            · rintro ⟨last, ⟨_, noMark⟩, notEscape, noEscape⟩
              exact ⟨Ne.symm notEscape, last, noMark, noEscape⟩

/-- A text is a simple literal when, behind its mark, it ends with the next one. -/
theorem isSome_stringLiteral?
    (text : Text) :
    (stringLiteral? text).isSome =
      match (text.trim.afterHead? ['&']).getD text.trim with
      | [] => false
      | mark :: rest => isQuoteMark mark && endsAtMark mark rest := by
  unfold stringLiteral?
  dsimp only
  split
  · rename_i mark rest bare
    rw [bare]
    dsimp only
    rw [Bool.eq_iff_iff, Bool.and_eq_true (isQuoteMark mark) (endsAtMark mark rest), endsAtMark_iff]
    split
    · rename_i closed
      rw [Bool.and_eq_true, beq_iff_eq] at closed
      split
      · rename_i marks
        simp only [Bool.or_eq_true, List.contains_iff_mem] at marks
        simp only [Option.isSome_none, Bool.false_eq_true, false_iff]
        rintro ⟨_, _, noMark, noEscape⟩
        rcases marks with isMark | isEscape
        · exact noMark isMark
        · exact noEscape isEscape
      · rename_i simple
        simp only [Bool.or_eq_true, List.contains_iff_mem, not_or] at simple
        simp [closed, simple]
    · rename_i open'
      simp only [Bool.and_eq_true, beq_iff_eq] at open'
      simp only [Option.isSome_none, Bool.false_eq_true, false_iff]
      rintro ⟨quote, last, _, _⟩
      exact open' ⟨quote, last⟩
  · rename_i bare
    rw [bare]
    rfl

namespace Veiled

/-- A literal that stays open does not end at its mark. -/
theorem endsAtMark_of_staysInside
    {mark : Char}
    (notEscape : mark ≠ '\\')
    {text : Text}
    (stays : (Quoting.inside mark).staysInside text = true) :
    endsAtMark mark text = false := by
  induction text with
  | nil =>
      rfl
  | cons character rest inductionHypothesis =>
      obtain ⟨_, below⟩ := Quoting.staysInside_cons.mp stays
      unfold endsAtMark
      by_cases isMark : character = mark
      · subst isMark
        rw [Quoting.step_inside_mark notEscape] at below
        exact absurd rfl (Quoting.ne_outside_of_staysInside below)
      · rw [if_neg isMark]
        by_cases isEscape : character = '\\'
        · simp [isEscape]
        · rw [Quoting.step_inside_of_ne isMark isEscape] at below
          rw [inductionHypothesis below, Bool.and_false]

/-- Of two related texts in a literal both end at its mark or none does. -/
theorem endsAtMark_eq
    {mark : Char}
    (quote : isQuoteMark mark = true)
    {text other : Text}
    (veiled : Veiled (.inside mark) text other) :
    endsAtMark mark text = endsAtMark mark other := by
  have notEscape : mark ≠ '\\' := ne_of_isQuoteMark quote rfl
  have notMark {character : Char} (ordinary : isOrdinary character = true) : character ≠ mark := by
    rintro rfl
    rw [(isOrdinary_iff.mp ordinary).1] at quote
    cases quote
  induction text generalizing other with
  | nil =>
      cases veiled with
      | nil =>
          rfl
      | openEnd stays otherStays =>
          exact (endsAtMark_of_staysInside notEscape otherStays).symm
  | cons character rest inductionHypothesis =>
      cases veiled with
      | same _ below =>
          unfold endsAtMark
          by_cases isMark : character = mark
          · subst isMark
            rw [Quoting.step_inside_mark notEscape] at below
            rw [if_pos rfl, if_pos rfl, Bool.eq_iff_iff, List.isEmpty_iff, List.isEmpty_iff]
            exact below.eq_nil_iff
          · rw [if_neg isMark, if_neg isMark]
            by_cases isEscape : character = '\\'
            · simp [isEscape]
            · rw [Quoting.step_inside_of_ne isMark isEscape] at below
              rw [inductionHypothesis below]
      | hidden _ firstOrdinary secondOrdinary below =>
          unfold endsAtMark
          rw [if_neg (notMark firstOrdinary), if_neg (notMark secondOrdinary),
            bne_iff_ne.mpr (isOrdinary_iff.mp firstOrdinary).2,
            bne_iff_ne.mpr (isOrdinary_iff.mp secondOrdinary).2, inductionHypothesis below]
      | openEnd stays otherStays =>
          rw [endsAtMark_of_staysInside notEscape stays,
            endsAtMark_of_staysInside notEscape otherStays]

theorem isSome_stringLiteral?_eq
    {text other : Text}
    (veiled : Veiled .outside text other) :
    (stringLiteral? text).isSome = (stringLiteral? other).isSome := by
  have bare : Veiled .outside ((text.trim.afterHead? ['&']).getD text.trim)
      ((other.trim.afterHead? ['&']).getD other.trim) := by
    have trimmed := veiled.trim
    rcases trimmed.outside_cases with ⟨nothing, otherNothing⟩ |
      ⟨character, rest, others, shape, otherShape, below⟩
    · rw [nothing, otherNothing]
      exact .nil _
    · rw [shape, otherShape]
      by_cases marked : character = '&'
      · subst marked
        exact below
      · rw [shape, otherShape] at trimmed
        simpa [Text.afterHead?, Text.startsWith, Ne.symm marked] using trimmed
  rw [isSome_stringLiteral?, isSome_stringLiteral?]
  rcases bare.outside_cases with ⟨nothing, otherNothing⟩ |
    ⟨mark, rest, others, shape, otherShape, below⟩
  · rw [nothing, otherNothing]
  · rw [shape, otherShape]
    dsimp only
    cases quote : isQuoteMark mark with
    | false =>
        rfl
    | true =>
        have opens : Quoting.outside.step mark = .inside mark :=
          if_pos quote
        rw [opens] at below
        rw [endsAtMark_eq quote below]

end Veiled

/-! ## The findings of the legacy check -/

theorem head?_argumentsOf_bind_stringLiteral?
    (first : Text)
    (pieces : List Text) :
    ((argumentsOf (first :: pieces)).head?.bind stringLiteral?).isSome =
      (stringLiteral? first).isSome := by
  have sameTrimmed : stringLiteral? first.trim = stringLiteral? first := by
    unfold stringLiteral?
    rw [Text.trim_trim]
  unfold argumentsOf
  split
  · rename_i blank
    have nothing : first.trim = [] :=
      (List.cons.inj blank).1
    rw [← sameTrimmed, nothing]
    rfl
  · rw [List.map_cons, List.head?_cons, Option.bind_some, sameTrimmed]

namespace Legacy

/-- The finding about a call of a name, given whether its first argument is a literal. -/
def findingAbout?
    (name : Text)
    (namesSignal : Bool) :
    Option (String × String) :=
  if name = "emit_signal".toList then
    some ("legacy_emit_signal",
      "emit_signal with a non-literal signal name was left in place")
  else if name = "yield".toList then
    some ("legacy_yield", "yield could not be translated to await")
  else if namesSignal then
    some ("legacy_connect", String.ofList name ++ " with a signal name string was left in place")
  else
    none

/-- The finding about the call that the word at the start of a text makes. -/
def findingAt?
    (start : Text) :
    Option (String × String) :=
  let word := start.takeWhile isIdentifierChar
  if !isNumber start && isCallee word then
    (callAt word start).bind fun read =>
      findingAbout? word ((argumentsOf read.1).head?.bind stringLiteral?).isSome
  else
    none

theorem callFinding?_eq
    (code : Text)
    (call : Call) :
    callFinding? code call =
      findingAbout? call.name ((call.toSite code).arguments.head?.bind stringLiteral?).isSome :=
  rfl

/-- The finding about a call is the one about the word it begins with. -/
theorem bind_ofToken?_callFinding?
    {code start : Text}
    (suffix : start <:+ code) :
    (Call.ofToken? code (wordAt code.length start)).bind (callFinding? code) =
      (callAt (start.takeWhile isIdentifierChar) start).bind fun read =>
        findingAbout? (start.takeWhile isIdentifierChar)
          ((argumentsOf read.1).head?.bind stringLiteral?).isSome := by
  have sameCall := Call.map_ofToken? suffix rfl
  unfold siteAt at sameCall
  cases found : Call.ofToken? code (wordAt code.length start) with
  | none =>
      rw [found, Option.map_none, eq_comm, Option.map_eq_none_iff] at sameCall
      rw [sameCall]
      rfl
  | some call =>
      rw [found, Option.map_some, eq_comm] at sameCall
      obtain ⟨read, isRead, sameSite⟩ := Option.map_eq_some_iff.mp sameCall
      have named : call.name = start.takeWhile isIdentifierChar := by
        unfold Call.ofToken? at found
        dsimp only at found
        split at found
        · obtain ⟨closeAt, _, rfl⟩ := Option.map_eq_some_iff.mp found
          rfl
        · cases found
      rw [isRead, Option.bind_some, Option.bind_some, callFinding?_eq, named, ← sameSite]

/-- The findings about the calls in code are those about the words that start in it. -/
theorem filterMap_findAll_eq
    (code : Text) :
    (Call.findAll isCallee code).filterMap (callFinding? code) =
      (wordStarts .outside false code).filterMap findingAt? := by
  unfold Call.findAll identifiers
  rw [← Quoting.mask_outside, wordRuns_mask, Nat.zero_add, List.filter_filter, List.filter_map,
    List.filterMap_map, List.filterMap_filterMap, List.filterMap_filter]
  refine List.filterMap_congr fun start member => ?_
  have sameWord : (isCallee (wordAt code.length start).text &&
      !(wordAt code.length start).text.head?.any isDigitChar) =
      (!isNumber start && isCallee (start.takeWhile isIdentifierChar)) :=
    Bool.and_comm _ _
  unfold findingAt?
  simp only [Function.comp_apply, sameWord,
    bind_ofToken?_callFinding? (suffix_of_mem_wordStarts member)]

/-- The same is found about calls at the start of related texts. -/
theorem findingAt?_eq
    {text other : Text}
    (veiled : Veiled .outside text other) :
    findingAt? text = findingAt? other := by
  have sameWord := veiled.word.1
  have sameCall := veiled.callAt_veiled (text.takeWhile isIdentifierChar)
  unfold findingAt? isNumber
  rw [← sameWord]
  dsimp only
  generalize callAt _ text = first at sameCall ⊢
  generalize callAt _ other = second at sameCall ⊢
  cases sameCall with
  | unread =>
      rfl
  | read head pieces others rest otherRest =>
      simp only [Option.bind_some, head?_argumentsOf_bind_stringLiteral?,
        head.isSome_stringLiteral?_eq]

theorem accessorFinding?_eq
    {text other : Text}
    (veiled : Veiled .outside text other) :
    accessorFinding? text = accessorFinding? other := by
  have fromWords (code : Text) : (identifiers code).any (·.text == "setget".toList) =
      (wordsOf code).any (· == "setget".toList) := by
    rw [wordsOf, List.any_map]
    rfl
  unfold accessorFinding?
  rw [fromWords, fromWords, veiled.wordsOf_eq]

theorem fieldFinding?_eq
    {text other : Text}
    (veiled : Veiled .outside text other) :
    fieldFinding? text = fieldFinding? other := by
  obtain ⟨sameWord, behind⟩ := veiled.firstWord_eq
  have rest := behind.trim
  have sameNext := rest.firstWord_eq.1
  have sameEmpty : (firstWord text).2.trim.isEmpty = (firstWord other).2.trim.isEmpty := by
    rw [Bool.eq_iff_iff, List.isEmpty_iff, List.isEmpty_iff]
    exact rest.eq_nil_iff
  have sameBracket : (firstWord text).2.trim.startsWith ['('] =
      (firstWord other).2.trim.startsWith ['('] := by
    rcases rest.outside_cases with ⟨nothing, otherNothing⟩ |
      ⟨character, _, _, shape, otherShape, _⟩
    · rw [nothing, otherNothing]
    · rw [shape, otherShape]
      simp [Text.startsWith, List.isPrefixOf]
  unfold fieldFinding?
  dsimp only
  rw [sameWord, sameNext, sameEmpty, sameBracket]

/-- The same is found in code that differs in strings only. -/
theorem codeFindings_eq
    {code other : Text}
    (veiled : Veiled .outside code other) :
    codeFindings code = codeFindings other := by
  have sameCalls : (wordStarts .outside false code).filterMap findingAt? =
      (wordStarts .outside false other).filterMap findingAt? := by
    have sameFindings := veiled.map_wordStarts_eq fun _ _ => findingAt?_eq
    have collect (starts : List Text) : starts.filterMap findingAt? =
        (starts.map findingAt?).filterMap id := by
      rw [List.filterMap_map]
      rfl
    rw [collect, collect, sameFindings]
  unfold codeFindings
  rw [filterMap_findAll_eq, filterMap_findAll_eq, sameCalls, accessorFinding?_eq veiled,
    fieldFinding?_eq veiled]

end Legacy

end ScriptUplift
