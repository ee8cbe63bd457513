import Mathlib.Tactic.Common
import ScriptUplift.Proofs.CommentBorder
import ScriptUplift.Proofs.FirstUses
import ScriptUplift.Proofs.RunLayout
import ScriptUplift.Proofs.StringLiterals

namespace ScriptUplift

/-!
# Names in code

A name stands in code as a whole word outside of strings and comments, either by
itself or as a member of the object itself.  The search for references blots out
strings without knowing those with three marks, and looks at the letters before
a dot only.  On a line that holds neither such a string nor a receiver that just
ends like the word for the object itself it finds a name exactly where one
stands.
-/

/-- The text before the dot that a text ends in, without the blanks around the dot. -/
def objectOf
    (front : Text) :
    Text :=
  (((front.reverse.dropWhile (· == ' ')).drop 1).dropWhile (· == ' ')).reverse

/-- The word before the dot that a text ends in. -/
def receiverOf
    (front : Text) :
    Text :=
  ((objectOf front).reverse.takeWhile isIdentifierChar).reverse

/-- The word by which an object names itself. -/
def selfWord : Text :=
  "self".toList

/-- A name is the word of a piece of code that starts at an index. -/
structure StandsAt
    (name code : Text)
    (index : Nat) :
    Prop where
  word : (code.drop index).takeWhile isIdentifierChar = name
  begins : ∀ last ∈ (code.take index).getLast?, isIdentifierChar last = false
  /-- The word is neither in a string nor in a comment. -/
  inCode : (Scanning.code.through (code.take index)).settle = .code
  /-- The word is no member of anything but the object itself. -/
  own : endsInDot (code.take index) = true → receiverOf (code.take index) = selfWord

instance (name code : Text) (index : Nat) : Decidable (StandsAt name code index) :=
  decidable_of_iff
    ((code.drop index).takeWhile isIdentifierChar = name ∧
      (code.take index).getLast?.all (!isIdentifierChar ·) = true ∧
      (Scanning.code.through (code.take index)).settle = .code ∧
      (endsInDot (code.take index) = true → receiverOf (code.take index) = selfWord))
    ⟨fun ⟨word, begins, inCode, own⟩ =>
        ⟨word, by simpa [Option.all_eq_true] using begins, inCode, own⟩,
      fun ⟨word, begins, inCode, own⟩ =>
        ⟨word, by simpa [Option.all_eq_true] using begins, inCode, own⟩⟩

/-- A line of code has a name in it, in front of its comment. -/
def Line.Names
    (name : Text)
    (line : Line) :
    Prop :=
  line.category.isTrivia = false ∧ isIdentifier name = true ∧
    ∃ index < line.uncommented.length, StandsAt name line.uncommented index

instance (name : Text) (line : Line) : Decidable (line.Names name) :=
  inferInstanceAs (Decidable (_ ∧ _ ∧ _))

/-- Whether a scan is in a string with three marks. -/
def Scanning.isMultiline : Scanning → Bool
  | .inside _ triple | .escaped _ triple | .behindMark _ triple _ =>
      triple
  | .code | .comment =>
      false

/-- A line whose code shows names by its words alone. -/
structure Line.ReadsPlainly
    (line : Line) :
    Prop where
  /-- The line begins outside of strings. -/
  outside : line.inString = false
  /-- A comment is told from the code, also on a line that continues a statement. -/
  uncommented : line.code = line.uncommented
  /-- No string in the line has three marks. -/
  single :
    ∀ index ≤ line.uncommented.length,
      (Scanning.code.through (line.uncommented.take index)).isMultiline = false
  /-- No receiver just ends like the word for the object itself. -/
  receivers :
    ∀ index ≤ line.uncommented.length,
      endsInDot (line.uncommented.take index) = true →
        (objectOf (line.uncommented.take index)).endsWith selfWord = true →
          receiverOf (line.uncommented.take index) = selfWord

instance (line : Line) : Decidable line.ReadsPlainly :=
  decidable_of_iff
    (line.inString = false ∧ line.code = line.uncommented ∧
      (∀ index ≤ line.uncommented.length,
        (Scanning.code.through (line.uncommented.take index)).isMultiline = false) ∧
      ∀ index ≤ line.uncommented.length,
        endsInDot (line.uncommented.take index) = true →
          (objectOf (line.uncommented.take index)).endsWith selfWord = true →
            receiverOf (line.uncommented.take index) = selfWord)
    ⟨fun facts => ⟨facts.1, facts.2.1, facts.2.2.1, facts.2.2.2⟩,
      fun plain => ⟨plain.outside, plain.uncommented, plain.single, plain.receivers⟩⟩

/-- A word starts outside of strings, behind a character of no word. -/
theorem mem_wordStarts_iff
    {quoting : Quoting}
    (proper : quoting.IsProper)
    {inWord : Bool}
    {text start : Text} :
    start ∈ wordStarts quoting inWord text ↔
      ∃ front, text = front ++ start ∧ quoting.through front = .outside ∧
        (∃ first ∈ start.head?, isIdentifierChar first = true) ∧
        (front = [] → inWord = false) ∧
        ∀ last ∈ front.getLast?, isIdentifierChar last = false := by
  induction text generalizing quoting inWord with
  | nil =>
      constructor
      · intro member
        cases member
      · rintro ⟨front, shape, _, ⟨first, isFirst, _⟩, _⟩
        obtain ⟨_, rfl⟩ := List.append_eq_nil_iff.mp shape.symm
        cases isFirst
  | cons character rest inductionHypothesis =>
      have below :
          start ∈ wordStarts (quoting.step character) (quoting.isWordChar character) rest ↔ _ :=
        inductionHypothesis (Quoting.isProper_step proper character)
      have own : start ∈ wordStarts quoting inWord (character :: rest) ↔
          (quoting.isWordChar character = true ∧ inWord = false ∧ start = character :: rest) ∨
            start ∈ wordStarts (quoting.step character) (quoting.isWordChar character) rest := by
        rw [wordStarts]
        cases quoting.isWordChar character <;> cases inWord <;> simp
      rw [own, below]
      constructor
      · rintro (⟨word, notInWord, rfl⟩ | ⟨front, rfl, closed, begins, behind, ends⟩)
        · obtain ⟨outside, _, letter⟩ := Quoting.step_of_isWordChar word
          exact ⟨[], rfl, outside, ⟨character, rfl, letter⟩, fun _ => notInWord, by simp⟩
        · refine ⟨character :: front, rfl, closed, begins, by simp, ?_⟩
          cases front with
          | nil =>
              intro last isLast
              obtain rfl : character = last := Option.some.inj isLast
              rw [Bool.eq_false_iff]
              intro letter
              have outside := Quoting.outside_of_step proper
                (isQuoteMark_of_isIdentifierChar letter) closed
              have word : quoting.isWordChar character = true := by
                simpa [Quoting.isWordChar, outside] using letter
              rw [behind rfl] at word
              cases word
          | cons next others =>
              rwa [List.getLast?_cons_cons]
      · rintro ⟨front, shape, closed, begins, apart, ends⟩
        cases front with
        | nil =>
            obtain ⟨first, isFirst, letter⟩ := begins
            rw [List.nil_append] at shape
            rw [← shape] at isFirst
            obtain rfl := Option.some.inj isFirst
            have outside : quoting = .outside := closed
            exact .inl ⟨by simpa [Quoting.isWordChar, outside] using letter, apart rfl, shape.symm⟩
        | cons next others =>
            obtain ⟨rfl, restShape⟩ := List.cons.inj shape
            refine .inr ⟨others, restShape, closed, begins, ?_, ?_⟩
            · rintro rfl
              have noLetter := ends character rfl
              simp [Quoting.isWordChar, noLetter]
            · intro last isLast
              refine ends last ?_
              rw [List.getLast?_cons]
              simp [Option.mem_def.mp isLast]

namespace Scanning

/-- What the search for words takes a scan for that is in no comment and no multi-line string. -/
def quoting? : Scanning → Option Quoting
  | .code | .behindMark _ false true =>
      some .outside
  | .inside mark false | .behindMark mark false false =>
      some (.inside mark)
  | .escaped mark false =>
      some (.escaped mark)
  | _ =>
      none

/-- It is what the search takes every other scan for. -/
theorem quoting?_eq
    {scanning : Scanning}
    (notComment : scanning ≠ .comment)
    (single : scanning.isMultiline = false) :
    scanning.quoting? = some scanning.quoting := by
  cases scanning with
  | code =>
      rfl
  | comment =>
      exact absurd rfl notComment
  | inside mark triple | escaped mark triple =>
      obtain rfl : triple = false := single
      rfl
  | behindMark mark triple twice =>
      obtain rfl : triple = false := single
      cases twice <;> rfl

theorem quoting?_eq_some
    {scanning : Scanning}
    {quoting : Quoting}
    (taken : scanning.quoting? = some quoting) :
    scanning ≠ .comment ∧ scanning.isMultiline = false ∧ scanning.quoting = quoting := by
  rcases scanning with _ | _ | ⟨_, triple | triple⟩ | ⟨_, triple | triple⟩ |
    ⟨_, triple | triple, twice | twice⟩ <;> first
      | exact ⟨nofun, rfl, Option.some.inj taken⟩
      | cases taken

theorem quoting?_isSome
    {scanning : Scanning}
    (notComment : scanning ≠ .comment)
    (single : scanning.isMultiline = false) :
    scanning.quoting?.isSome = true := by
  rw [quoting?_eq notComment single]
  rfl

theorem settle_eq_code_iff
    {scanning : Scanning}
    {quoting : Quoting}
    (taken : scanning.quoting? = some quoting) :
    scanning.settle = .code ↔ quoting = .outside := by
  cases scanning with
  | code =>
      obtain rfl := Option.some.inj taken
      simp [settle]
  | comment =>
      cases taken
  | inside mark triple | escaped mark triple =>
      cases triple with
      | false =>
          obtain rfl := Option.some.inj taken
          simp [settle]
      | true =>
          cases taken
  | behindMark mark triple twice =>
      cases triple with
      | false =>
          cases twice <;>
            · obtain rfl := Option.some.inj taken
              simp [settle]
      | true =>
          cases taken

/-- Both scans take the same step if it leads into no comment and no multi-line string. -/
theorem quoting?_step
    {scanning : Scanning}
    (proper : scanning.IsProper)
    {quoting : Quoting}
    (taken : scanning.quoting? = some quoting)
    {character : Char}
    (goesOn : (scanning.step character).quoting?.isSome = true) :
    (scanning.step character).quoting? = some (quoting.step character) := by
  obtain ⟨_, single, rfl⟩ := quoting?_eq_some taken
  obtain ⟨next, isNext⟩ := Option.isSome_iff_exists.mp goesOn
  obtain ⟨notComment, _, rfl⟩ := quoting?_eq_some isNext
  have pairs : scanning.pairs character = true := by
    rcases scanning with _ | _ | _ | _ | ⟨_, triple | triple, _⟩ <;> first
      | rfl
      | cases single
  rw [isNext, quoting_step proper pairs notComment]

/-- Both scans of a text agree when none of its beginnings ends in what only one of them knows. -/
theorem quoting?_through
    {scanning : Scanning}
    (proper : scanning.IsProper)
    {quoting : Quoting}
    (taken : scanning.quoting? = some quoting)
    {text : Text}
    (goesOn : ∀ front, front <+: text → (scanning.through front).quoting?.isSome = true) :
    (scanning.through text).quoting? = some (quoting.through text) := by
  induction text generalizing scanning quoting with
  | nil =>
      exact taken
  | cons character rest inductionHypothesis =>
      refine inductionHypothesis (proper.step character)
        (quoting?_step proper taken (goesOn [character] ⟨rest, rfl⟩)) ?_
      intro front isFront
      obtain ⟨tail, rfl⟩ := isFront
      exact goesOn (character :: front) ⟨tail, rfl⟩

end Scanning

/-- The code in front of a comment is never scanned as a comment. -/
theorem Line.through_uncommented_ne_comment
    (line : Line)
    {front : Text}
    (isFront : front <+: line.uncommented) :
    Scanning.code.through front ≠ .comment := by
  have noComment : Scanning.code ≠ .comment := by
    simp
  obtain ⟨before, shape, notComment, _⟩ := Scanning.exists_commentOf noComment line.text
  have parts := Scan.code_append_comment none line.text
  rw [Scanning.comment_eq] at parts
  have code : (Scan.line none line.text).code = before :=
    List.append_cancel_right (parts.trans shape)
  obtain ⟨leading, trailing, leadingBlank, _, trimmed⟩ :=
    (Scan.line none line.text).code.exists_trim
  obtain ⟨behind, isUncommented⟩ := isFront
  intro reached
  refine notComment ?_
  have quiet := Scanning.all_isQuiet_of_blank leadingBlank
  have inCode : Scanning.code.through leading = .code := by
    by_cases empty : leading = []
    · rw [empty]
      rfl
    · have proper : Scanning.code.IsProper := trivial
      exact Scanning.through_of_quiet proper empty quiet
  rw [← code, trimmed]
  change Scanning.code.through (leading ++ (line.uncommented ++ trailing)) = _
  rw [← isUncommented, Scanning.through_append, inCode, List.append_assoc,
    Scanning.through_append, reached, Scanning.through_ofComment]

theorem isDigitChar_of_isIdentifierStart
    {character : Char}
    (starts : isIdentifierStart character = true) :
    isDigitChar character = false := by
  rw [Bool.eq_false_iff]
  intro digit
  have digitBounds : 48 ≤ character.toNat ∧ character.toNat ≤ 57 := by
    simpa [isDigitChar, Char.le_def, UInt32.le_iff_toNat_le] using digit
  have startBounds : character.toNat = 95 ∨
      (97 ≤ character.toNat ∧ character.toNat ≤ 122 ∨
        65 ≤ character.toNat ∧ character.toNat ≤ 90) ∨ 128 ≤ character.toNat := by
    rw [isIdentifierStart, isLetterChar] at starts
    simpa [Char.le_def, UInt32.le_iff_toNat_le, Char.ext_iff, UInt32.ext_iff, or_assoc] using starts
  omega

/-- A word that starts a text is an identifier exactly when it is no number. -/
theorem isIdentifier_takeWhile
    {start : Text}
    (begins : ∃ first ∈ start.head?, isIdentifierChar first = true) :
    isIdentifier (start.takeWhile isIdentifierChar) = true ↔ isNumber start = false := by
  obtain ⟨first, isFirst, letter⟩ := begins
  obtain ⟨rest, rfl⟩ := List.head?_eq_some_iff.mp isFirst
  have word : (first :: rest).takeWhile isIdentifierChar =
      first :: rest.takeWhile isIdentifierChar :=
    List.takeWhile_cons_of_pos letter
  have others : (rest.takeWhile isIdentifierChar).all isIdentifierChar = true :=
    List.all_takeWhile
  rw [isNumber, word, isIdentifier, others, Bool.and_true]
  constructor
  · intro starts
    simpa using isDigitChar_of_isIdentifierStart starts
  · intro noDigit
    have noDigitChar : isDigitChar first = false := by
      simpa using noDigit
    simpa [isIdentifierChar, noDigitChar] using letter

/-- The words of code that the search takes for uses of a name. -/
theorem any_uses_iff
    {code name : Text} :
    (identifiers code).any (Token.uses code name) = true ↔
      ∃ start ∈ wordStarts .outside false code,
        isNumber start = false ∧ start.takeWhile isIdentifierChar = name ∧
          isOwnName code (wordAt code.length start) = true := by
  unfold identifiers
  rw [← Quoting.mask_outside, wordRuns_mask, Nat.zero_add, List.any_eq_true]
  simp only [List.mem_map, List.mem_filter, Bool.not_eq_true', Token.uses, Bool.and_eq_true,
    beq_iff_eq]
  constructor
  · rintro ⟨_, ⟨⟨start, member, rfl⟩, noNumber⟩, rfl, own⟩
    exact ⟨start, member, noNumber, rfl, own⟩
  · rintro ⟨start, member, noNumber, rfl, own⟩
    exact ⟨_, ⟨⟨start, member, rfl⟩, noNumber⟩, rfl, own⟩

/-- Looking at the letters before a dot is enough where no receiver just ends like the word. -/
theorem isOwnName_iff
    {code : Text}
    {token : Token}
    (receiver :
      endsInDot (code.take token.start) = true →
        (objectOf (code.take token.start)).endsWith selfWord = true →
          receiverOf (code.take token.start) = selfWord) :
    isOwnName code token = true ↔
      (endsInDot (code.take token.start) = true →
        receiverOf (code.take token.start) = selfWord) := by
  unfold isOwnName
  unfold endsInDot at receiver ⊢
  have object : objectOf (code.take token.start) =
      ((((code.take token.start).reverse.dropWhile (· == ' ')).drop 1).dropWhile
        (· == ' ')).reverse := rfl
  cases before : (code.take token.start).reverse.dropWhile (· == ' ') with
  | nil =>
      simp
  | cons mark rest =>
      rw [before] at receiver object
      by_cases dot : mark = '.'
      · subst dot
        have isObject : objectOf (code.take token.start) = (rest.dropWhile (· == ' ')).reverse :=
          object
        have ends : (objectOf (code.take token.start)).endsWith selfWord =
            "fles".toList.isPrefixOf (rest.dropWhile (· == ' ')) := by
          rw [isObject, Text.endsWith, List.isSuffixOf, List.reverse_reverse]
          rfl
        rw [ends] at receiver
        constructor
        · intro isPrefix _
          exact receiver rfl isPrefix
        · intro isSelf
          have word : (rest.dropWhile (· == ' ')).takeWhile isIdentifierChar = "fles".toList := by
            have isReceiver := isSelf rfl
            rw [receiverOf, isObject, List.reverse_reverse, List.reverse_eq_iff] at isReceiver
            exact isReceiver
          refine List.isPrefixOf_iff_prefix.mpr ?_
          rw [← word]
          exact List.takeWhile_prefix _
      · have noDot : (some mark == some '.') = false := by
          simpa using dot
        simp only [List.head?_cons, noDot, Bool.false_eq_true, false_implies, iff_true]
        split
        · rename_i isDot
          exact absurd (List.cons.inj isDot).1 dot
        · rfl

/-- Where a word starts in code, by the index of its first character. -/
theorem drop_mem_wordStarts_iff
    {code : Text}
    {index : Nat} :
    code.drop index ∈ wordStarts .outside false code ↔
      Quoting.outside.through (code.take index) = .outside ∧
        (∃ first ∈ (code.drop index).head?, isIdentifierChar first = true) ∧
        ∀ last ∈ (code.take index).getLast?, isIdentifierChar last = false := by
  have outside : Quoting.outside.IsProper := trivial
  constructor
  · intro member
    obtain ⟨front, shape, closed, begins, _, ends⟩ := (mem_wordStarts_iff outside).mp member
    obtain rfl : front = code.take index :=
      List.append_cancel_right (shape.symm.trans (List.take_append_drop index code).symm)
    exact ⟨closed, begins, ends⟩
  · rintro ⟨closed, begins, ends⟩
    exact (mem_wordStarts_iff outside).mpr
      ⟨_, (List.take_append_drop index code).symm, closed, begins, fun _ => rfl, ends⟩

theorem exists_index_of_mem_wordStarts
    {code start : Text}
    (member : start ∈ wordStarts .outside false code) :
    ∃ index < code.length, start = code.drop index := by
  have outside : Quoting.outside.IsProper := trivial
  obtain ⟨front, shape, _, ⟨first, isFirst, _⟩, _⟩ := (mem_wordStarts_iff outside).mp member
  obtain ⟨rest, rfl⟩ := List.head?_eq_some_iff.mp isFirst
  refine ⟨front.length, ?_, ?_⟩
  · rw [shape, List.length_append, List.length_cons]
    omega
  · rw [shape, List.drop_left]

namespace Line.ReadsPlainly

variable {line : Line}

/-- Both readings of the line find the same characters outside of strings. -/
theorem settle_eq_code_iff
    (plain : line.ReadsPlainly)
    (index : Nat) :
    (Scanning.code.through (line.uncommented.take index)).settle = .code ↔
      Quoting.outside.through (line.uncommented.take index) = .outside := by
  have proper : Scanning.code.IsProper := trivial
  refine Scanning.settle_eq_code_iff
    (Scanning.quoting?_through proper rfl fun front isFront => ?_)
  have within : front <+: line.uncommented := isFront.trans (List.take_prefix _ _)
  refine Scanning.quoting?_isSome (line.through_uncommented_ne_comment within) ?_
  rw [List.prefix_iff_eq_take.mp within]
  exact plain.single _ within.length_le

/-- The search tells the members of other objects by what stands in front of a word. -/
theorem isOwnName_drop_iff
    (plain : line.ReadsPlainly)
    {index : Nat}
    (inRange : index < line.uncommented.length) :
    isOwnName line.uncommented
        (wordAt line.uncommented.length (line.uncommented.drop index)) = true ↔
      (endsInDot (line.uncommented.take index) = true →
        receiverOf (line.uncommented.take index) = selfWord) := by
  have place : (wordAt line.uncommented.length (line.uncommented.drop index)).start = index := by
    rw [wordAt, List.length_drop]
    exact Nat.sub_sub_self (Nat.le_of_lt inRange)
  have own := isOwnName_iff (place.symm ▸ plain.receivers index (Nat.le_of_lt inRange))
  rwa [place] at own

/-- On a line that reads plainly the search finds a name exactly where the code has it. -/
theorem uses_iff
    (plain : line.ReadsPlainly)
    (name : Text) :
    line.uses name = true ↔ line.Names name := by
  rw [Line.uses, Bool.and_eq_true, Bool.not_eq_true', any_uses_iff, Line.Names, plain.uncommented]
  refine and_congr_right fun _ => ?_
  constructor
  · rintro ⟨start, member, noNumber, rfl, own⟩
    obtain ⟨index, inRange, rfl⟩ := exists_index_of_mem_wordStarts member
    obtain ⟨closed, begins, ends⟩ := drop_mem_wordStarts_iff.mp member
    exact ⟨(isIdentifier_takeWhile begins).mpr noNumber, index, inRange, rfl, ends,
      (plain.settle_eq_code_iff index).mpr closed, (plain.isOwnName_drop_iff inRange).mp own⟩
  · rintro ⟨named, index, inRange, rfl, ends, inCode, own⟩
    have begins : ∃ first ∈ (line.uncommented.drop index).head?, isIdentifierChar first = true := by
      cases rest : line.uncommented.drop index with
      | nil =>
          rw [rest] at named
          cases named
      | cons first others =>
          refine ⟨first, rfl, ?_⟩
          by_contra noLetter
          rw [rest, List.takeWhile_cons_of_neg noLetter] at named
          cases named
    exact ⟨line.uncommented.drop index,
      drop_mem_wordStarts_iff.mpr ⟨(plain.settle_eq_code_iff index).mp inCode, begins, ends⟩,
      (isIdentifier_takeWhile begins).mp named, rfl, (plain.isOwnName_drop_iff inRange).mpr own⟩

end Line.ReadsPlainly

end ScriptUplift
