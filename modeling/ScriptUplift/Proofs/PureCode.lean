import Mathlib.Tactic.Common
import ScriptUplift.Orphan.Binding
import ScriptUplift.Proofs.CarriedCalls

namespace ScriptUplift

/-!
# What code calls when it is written on one line

Code has no effects when it holds no word that always has one and calls nothing
that may have one.  When a statement of several lines is written on one line it
has the words of its lines and their calls, and one kind of call in addition:
those whose bracket opens or closes on a later line than the callee stands on.
No other call comes up, as long as no string goes on below a line and no word
stands below a line that ends in a dot.
-/

/-- A callee as far as effects are told by it. -/
structure Callee where
  name : Text
  /-- The callee is a member of what stands before a dot. -/
  dotted : Bool
  deriving Repr, DecidableEq

/-- Whether calling a name only computes a value; a capitalised one is a constructor. -/
def Callee.isAllowed
    (callee : Callee) :
    Bool :=
  if callee.dotted then
    pureMethods.contains callee.name
  else
    pureFunctions.contains callee.name ||
      callee.name.head?.any fun first => 'A' ≤ first && first ≤ 'Z'

/-- The words of code. -/
def wordsOf
    (code : Text) :
    List Text :=
  (identifiers code).map (·.text)

/-- The callees of the complete calls in code. -/
def calleesOf
    (code : Text) :
    List Callee :=
  (Call.findAll (fun _ => true) code).map fun call => ⟨call.name, call.dotted⟩

/-- Code calls nothing that may have effects when its words and its callees are allowed. -/
theorem isPureCode_iff
    (code : Text) :
    isPureCode code = true ↔
      (∀ word ∈ wordsOf code, word ∉ effectWords) ∧
        ∀ callee ∈ calleesOf code, callee.isAllowed = true := by
  unfold isPureCode wordsOf calleesOf
  rw [Bool.and_eq_true, List.all_eq_true, List.all_eq_true, List.forall_mem_map,
    List.forall_mem_map]
  simp only [Bool.not_eq_true', List.contains_eq_mem, decide_eq_false_iff_not]
  rfl

/-- Whether a text ends in a dot, but for spaces. -/
def endsInDot
    (text : Text) :
    Bool :=
  (text.reverse.dropWhile (· == ' ')).head? == some '.'

/-- The word that starts a text, as a callee in the code that the text ends. -/
def calleeIn
    (code start : Text) :
    Callee :=
  ⟨start.takeWhile isIdentifierChar, endsInDot (code.take (code.length - start.length))⟩

/-- Whether the word that starts a text is a number. -/
def isNumber
    (start : Text) :
    Bool :=
  (start.takeWhile isIdentifierChar).head?.any isDigitChar

/-- Whether the word that starts a text is called, and the bracket closed. -/
def isCalled
    (start : Text) :
    Bool :=
  (callAt (start.takeWhile isIdentifierChar) start).isSome

/-- The words of code start in it and are no numbers. -/
theorem mem_wordsOf_iff
    {word code : Text} :
    word ∈ wordsOf code ↔
      ∃ start ∈ wordStarts .outside false code,
        isNumber start = false ∧ start.takeWhile isIdentifierChar = word := by
  unfold wordsOf identifiers
  rw [← Quoting.mask_outside, wordRuns_mask, Nat.zero_add]
  simp only [List.mem_map, List.mem_filter, Bool.not_eq_true']
  constructor
  · rintro ⟨token, ⟨⟨start, member, rfl⟩, noNumber⟩, rfl⟩
    exact ⟨start, member, noNumber, rfl⟩
  · rintro ⟨start, member, noNumber, rfl⟩
    exact ⟨_, ⟨⟨start, member, rfl⟩, noNumber⟩, rfl⟩

namespace Call

/-- The call that the word at the start of a text makes is that of the callee. -/
theorem exists_ofToken?_iff
    {code start : Text}
    (suffix : start <:+ code)
    {callee : Callee} :
    (∃ call, ofToken? code (wordAt code.length start) = some call ∧
        (⟨call.name, call.dotted⟩ : Callee) = callee) ↔
      isCalled start = true ∧ calleeIn code start = callee := by
  have sameCall := congrArg Option.isSome (map_ofToken? suffix rfl)
  rw [Option.isSome_map, siteAt, Option.isSome_map] at sameCall
  have named {call : Call} (found : ofToken? code (wordAt code.length start) = some call) :
      (⟨call.name, call.dotted⟩ : Callee) = calleeIn code start := by
    unfold ofToken? at found
    dsimp only at found
    split at found
    · obtain ⟨closeAt, _, rfl⟩ := Option.map_eq_some_iff.mp found
      rfl
    · cases found
  constructor
  · rintro ⟨call, found, rfl⟩
    refine ⟨?_, (named found).symm⟩
    rw [isCalled, ← sameCall, found]
    rfl
  · rintro ⟨called, rfl⟩
    rw [isCalled, ← sameCall, Option.isSome_iff_exists] at called
    obtain ⟨call, found⟩ := called
    exact ⟨call, found, named found⟩

end Call

/-- The callees of code are its words that are called. -/
theorem mem_calleesOf_iff
    {callee : Callee}
    {code : Text} :
    callee ∈ calleesOf code ↔
      ∃ start ∈ wordStarts .outside false code,
        isNumber start = false ∧ isCalled start = true ∧ calleeIn code start = callee := by
  unfold calleesOf Call.findAll identifiers
  rw [← Quoting.mask_outside, wordRuns_mask, Nat.zero_add]
  simp only [List.mem_map, List.mem_filterMap, List.mem_filter, Bool.not_eq_true']
  constructor
  · rintro ⟨call, ⟨token, ⟨⟨⟨start, member, rfl⟩, noNumber⟩, _⟩, found⟩, rfl⟩
    have both := (Call.exists_ofToken?_iff (suffix_of_mem_wordStarts member)).mp ⟨call, found, rfl⟩
    exact ⟨start, member, noNumber, both⟩
  · rintro ⟨start, member, noNumber, both⟩
    obtain ⟨call, found, rfl⟩ :=
      (Call.exists_ofToken?_iff (suffix_of_mem_wordStarts member)).mpr both
    exact ⟨call, ⟨_, ⟨⟨⟨start, member, rfl⟩, noNumber⟩, trivial⟩, found⟩, rfl⟩

/-! ## Two lines on one -/

/--
A line break that can be written as a space: no string goes on below it, and no
word stands right below a dot.
-/
structure PlainBreak
    (above below : Text) :
    Prop where
  closed : Quoting.outside.through above = .outside
  undotted : endsInDot above = true → (firstWord below).1 = []

instance (above below : Text) : Decidable (PlainBreak above below) :=
  decidable_of_iff
    (Quoting.outside.through above = .outside ∧
      (endsInDot above = true → (firstWord below).1 = []))
    ⟨fun both => ⟨both.1, both.2⟩, fun plain => ⟨plain.closed, plain.undotted⟩⟩

/-- The callees above a line break whose brackets are opened or closed below it. -/
def partedCallees
    (above below : Text) :
    List Callee :=
  ((wordStarts .outside false above).filter fun start =>
    !isNumber start && !isCalled start && isCalled (start ++ ' ' :: below)).map (calleeIn above)

theorem takeWhile_isIdentifierChar_append_space
    (start below : Text) :
    (start ++ ' ' :: below).takeWhile isIdentifierChar = start.takeWhile isIdentifierChar := by
  have space : isIdentifierChar ' ' = false := by
    decide
  induction start with
  | nil =>
      simp [space]
  | cons character rest inductionHypothesis =>
      simp only [List.cons_append, List.takeWhile_cons, inductionHypothesis]

@[simp] theorem isNumber_append_space
    (start below : Text) :
    isNumber (start ++ ' ' :: below) = isNumber start := by
  rw [isNumber, takeWhile_isIdentifierChar_append_space, isNumber]

/-- What is called on a line is called whatever is written behind it. -/
theorem isCalled_append_space
    {start : Text}
    (called : isCalled start = true)
    (below : Text) :
    isCalled (start ++ ' ' :: below) = true := by
  unfold isCalled callAt at called ⊢
  rw [if_pos rfl] at called
  rw [if_pos rfl, takeWhile_isIdentifierChar_append_space]
  have word : (start.takeWhile isIdentifierChar).length ≤ start.length :=
    (List.takeWhile_sublist _).length_le
  rw [List.drop_append_of_le_length word]
  generalize start.drop (start.takeWhile isIdentifierChar).length = after at called ⊢
  have ends : after.all (· == ' ') = false := by
    rw [Bool.eq_false_iff]
    intro spaces
    rw [List.dropWhile_eq_nil_iff.mpr (List.all_eq_true.mp spaces)] at called
    cases called
  rw [(takeWhile_append_of_not_all ends _).2]
  cases gap : after.dropWhile (· == ' ') with
  | nil =>
      rw [gap] at called
      cases called
  | cons character body =>
      rw [gap] at called
      by_cases opening : character = '('
      · subst opening
        obtain ⟨⟨pieces, rest⟩, found⟩ := Option.isSome_iff_exists.mp called
        have read : readPieces .outside 0 (body ++ ' ' :: below) =
            some (pieces, rest ++ ' ' :: below) := readPieces_append_below found _
        rw [List.cons_append, listAt, read]
        rfl
      · rw [listAt_of_ne opening] at called
        cases called

theorem endsInDot_append
    (first second : Text) :
    endsInDot (first ++ second) =
      if second.all (· == ' ') then endsInDot first else endsInDot second := by
  have same : second.reverse.all (· == ' ') = second.all (· == ' ') := List.all_reverse
  unfold endsInDot
  rw [List.reverse_append]
  split
  · rename_i spaces
    rw [List.dropWhile_append_of_pos]
    rw [← same, List.all_eq_true] at spaces
    exact spaces
  · rename_i ends
    rw [(takeWhile_append_of_not_all (by simpa [same] using ends) _).2]
    have someLeft : second.reverse.dropWhile (· == ' ') ≠ [] := by
      intro nothing
      rw [List.dropWhile_eq_nil_iff, ← List.all_eq_true, same] at nothing
      exact ends nothing
    rw [List.head?_append_of_ne_nil _ someLeft]

theorem exists_head_of_mem_wordStarts
    {quoting : Quoting}
    {inWord : Bool}
    {text start : Text}
    (member : start ∈ wordStarts quoting inWord text) :
    ∃ character rest, start = character :: rest ∧ isIdentifierChar character = true := by
  induction text generalizing quoting inWord with
  | nil =>
      cases member
  | cons character rest inductionHypothesis =>
      unfold wordStarts at member
      dsimp only at member
      split at member
      · rename_i starts
        rw [Bool.and_eq_true] at starts
        rcases List.mem_cons.mp member with rfl | below
        · exact ⟨character, rest, rfl, (Quoting.step_of_isWordChar starts.1).2.2⟩
        · exact inductionHypothesis below
      · exact inductionHypothesis member

/-- A word is the same callee whatever is written behind its line. -/
theorem calleeIn_append_space
    {above start : Text}
    (suffix : start <:+ above)
    (below : Text) :
    calleeIn (above ++ ' ' :: below) (start ++ ' ' :: below) = calleeIn above start := by
  obtain ⟨front, rfl⟩ := suffix
  have whole : (front ++ start ++ ' ' :: below).take
      ((front ++ start ++ ' ' :: below).length - (start ++ ' ' :: below).length) = front := by
    rw [List.append_assoc, List.length_append, Nat.add_sub_cancel, List.take_left]
  have own : (front ++ start).take ((front ++ start).length - start.length) = front := by
    rw [List.length_append, Nat.add_sub_cancel, List.take_left]
  rw [calleeIn, calleeIn, takeWhile_isIdentifierChar_append_space, whole, own]

namespace PlainBreak

variable
  {above below : Text}
  (plain : PlainBreak above below)

include plain

/-- The words of two lines on one start in the one or the other. -/
theorem wordStarts_eq :
    wordStarts .outside false (above ++ ' ' :: below) =
      (wordStarts .outside false above).map (· ++ ' ' :: below) ++
        wordStarts .outside false below := by
  rw [wordStarts_append, plain.closed]
  rfl

/-- A word of the line below a break is the same callee behind the line above it. -/
theorem calleeIn_eq
    {start : Text}
    (member : start ∈ wordStarts .outside false below) :
    calleeIn (above ++ ' ' :: below) start = calleeIn below start := by
  obtain ⟨front, rfl⟩ := suffix_of_mem_wordStarts member
  have whole : (above ++ ' ' :: (front ++ start)).take
      ((above ++ ' ' :: (front ++ start)).length - start.length) = above ++ ' ' :: front := by
    have shape : above ++ ' ' :: (front ++ start) = above ++ ' ' :: front ++ start := by
      simp
    rw [shape, List.length_append, Nat.add_sub_cancel, List.take_left]
  have own : (front ++ start).take ((front ++ start).length - start.length) = front := by
    rw [List.length_append, Nat.add_sub_cancel, List.take_left]
  rw [calleeIn, calleeIn, whole, own]
  congr 1
  rw [endsInDot_append]
  cases spaces : front.all (· == ' ') with
  | false =>
      rw [List.all_cons, spaces, Bool.and_false, if_neg Bool.false_ne_true]
      exact (endsInDot_append [' '] front).trans (by rw [spaces, if_neg Bool.false_ne_true])
  | true =>
      -- The word is the first of its line, so that a dot above the break would be its own.
      have noDot : endsInDot front = false := by
        rw [← List.nil_append front, endsInDot_append, spaces, if_pos rfl]
        rfl
      rw [List.all_cons, spaces, noDot]
      rw [Bool.eq_false_iff]
      intro dotted
      have noWord := plain.undotted dotted
      obtain ⟨character, rest, rfl, word⟩ := exists_head_of_mem_wordStarts member
      have noIndent := isIndentChar_of_isIdentifierChar word
      have indentation : ∀ space ∈ front, isIndentChar space = true := by
        intro space inFront
        rw [List.all_eq_true] at spaces
        rw [eq_of_beq (spaces space inFront)]
        decide
      rw [firstWord, Text.dropIndentation, List.dropWhile_append_of_pos indentation,
        List.dropWhile_cons_of_neg (by simp [noIndent]), List.takeWhile_cons_of_pos word] at noWord
      cases noWord

/-- The words of two lines on one are those of the two. -/
theorem mem_wordsOf_append
    {word : Text} :
    word ∈ wordsOf (above ++ ' ' :: below) ↔ word ∈ wordsOf above ∨ word ∈ wordsOf below := by
  rw [mem_wordsOf_iff, mem_wordsOf_iff, mem_wordsOf_iff, plain.wordStarts_eq]
  simp only [List.mem_append, List.mem_map]
  constructor
  · rintro ⟨_, ⟨start, member, rfl⟩ | member, noNumber, rfl⟩
    · rw [isNumber_append_space] at noNumber
      rw [takeWhile_isIdentifierChar_append_space]
      exact .inl ⟨start, member, noNumber, rfl⟩
    · exact .inr ⟨_, member, noNumber, rfl⟩
  · rintro (⟨start, member, noNumber, rfl⟩ | ⟨start, member, noNumber, rfl⟩)
    · exact ⟨_, .inl ⟨start, member, rfl⟩, (isNumber_append_space _ _).trans noNumber,
        takeWhile_isIdentifierChar_append_space _ _⟩
    · exact ⟨start, .inr member, noNumber, rfl⟩

/-- The callees of two lines on one are those of the two, and those that the break parts. -/
theorem mem_calleesOf_append
    {callee : Callee} :
    callee ∈ calleesOf (above ++ ' ' :: below) ↔
      (callee ∈ calleesOf above ∨ callee ∈ partedCallees above below) ∨
        callee ∈ calleesOf below := by
  rw [mem_calleesOf_iff, mem_calleesOf_iff, mem_calleesOf_iff, plain.wordStarts_eq]
  simp only [partedCallees, List.mem_append, List.mem_map, List.mem_filter, Bool.and_eq_true,
    Bool.not_eq_true']
  constructor
  · rintro ⟨_, ⟨start, member, rfl⟩ | member, noNumber, called, rfl⟩
    · rw [isNumber_append_space] at noNumber
      rw [calleeIn_append_space (suffix_of_mem_wordStarts member)]
      cases calledAbove : isCalled start with
      | true =>
          exact .inl (.inl ⟨start, member, noNumber, calledAbove, rfl⟩)
      | false =>
          exact .inl (.inr ⟨start, ⟨member, ⟨noNumber, calledAbove⟩, called⟩, rfl⟩)
    · exact .inr ⟨_, member, noNumber, called, (plain.calleeIn_eq member).symm⟩
  · rintro ((⟨start, member, noNumber, called, rfl⟩ |
      ⟨start, ⟨member, ⟨noNumber, _⟩, called⟩, rfl⟩) | ⟨start, member, noNumber, called, rfl⟩)
    · exact ⟨_, .inl ⟨start, member, rfl⟩, (isNumber_append_space _ _).trans noNumber,
        isCalled_append_space called below,
        calleeIn_append_space (suffix_of_mem_wordStarts member) below⟩
    · exact ⟨_, .inl ⟨start, member, rfl⟩, (isNumber_append_space _ _).trans noNumber, called,
        calleeIn_append_space (suffix_of_mem_wordStarts member) below⟩
    · exact ⟨start, .inr member, noNumber, called, plain.calleeIn_eq member⟩

end PlainBreak

/-! ## Statements on one line -/

/-- The lines of a statement, written on one. -/
def oneLine : List Text → Text
  | [] =>
      []
  | [line] =>
      line
  | line :: rest =>
      line ++ ' ' :: oneLine rest

/-- Whether all line breaks of a statement can be written as spaces. -/
def BreaksPlainly : List Text → Prop
  | [] | [_] =>
      True
  | line :: rest =>
      PlainBreak line (oneLine rest) ∧ BreaksPlainly rest

/-- The callees of a statement that some line break parts from their brackets. -/
def partedCalleesOf : List Text → List Callee
  | [] | [_] =>
      []
  | line :: rest =>
      partedCallees line (oneLine rest) ++ partedCalleesOf rest

instance decidableBreaksPlainly : (lines : List Text) → Decidable (BreaksPlainly lines)
  | [] | [_] =>
      .isTrue trivial
  | line :: next :: rest =>
      have := decidableBreaksPlainly (next :: rest)
      inferInstanceAs (Decidable (PlainBreak line (oneLine (next :: rest)) ∧ _))

theorem BreaksPlainly.of_cons
    {line : Text}
    {rest : List Text}
    (plain : BreaksPlainly (line :: rest))
    (someRest : rest ≠ []) :
    PlainBreak line (oneLine rest) ∧ BreaksPlainly rest := by
  cases rest with
  | nil =>
      exact absurd rfl someRest
  | cons =>
      exact plain

theorem partedCalleesOf_cons
    (line : Text)
    {rest : List Text}
    (someRest : rest ≠ []) :
    partedCalleesOf (line :: rest) = partedCallees line (oneLine rest) ++ partedCalleesOf rest := by
  cases rest with
  | nil =>
      exact absurd rfl someRest
  | cons =>
      rfl

/-- A statement on one line has the words of its lines. -/
theorem mem_wordsOf_oneLine
    {lines : List Text}
    (plain : BreaksPlainly lines)
    {word : Text} :
    word ∈ wordsOf (oneLine lines) ↔ ∃ line ∈ lines, word ∈ wordsOf line := by
  fun_induction oneLine lines with
  | case1 =>
      have nothing : wordsOf [] = [] := rfl
      simp [nothing]
  | case2 line =>
      simp
  | case3 line rest someRest inductionHypothesis =>
      obtain ⟨plainHere, plainBelow⟩ := plain.of_cons someRest
      rw [plainHere.mem_wordsOf_append, inductionHypothesis plainBelow]
      simp

/-- A statement on one line calls what its lines call, and what its line breaks part. -/
theorem mem_calleesOf_oneLine
    {lines : List Text}
    (plain : BreaksPlainly lines)
    {callee : Callee} :
    callee ∈ calleesOf (oneLine lines) ↔
      (∃ line ∈ lines, callee ∈ calleesOf line) ∨ callee ∈ partedCalleesOf lines := by
  fun_induction oneLine lines with
  | case1 =>
      have nothing : calleesOf [] = [] := rfl
      simp [nothing, partedCalleesOf]
  | case2 line =>
      simp [partedCalleesOf]
  | case3 line rest someRest inductionHypothesis =>
      obtain ⟨plainHere, plainBelow⟩ := plain.of_cons someRest
      rw [plainHere.mem_calleesOf_append, inductionHypothesis plainBelow,
        partedCalleesOf_cons line someRest, List.mem_append, List.exists_mem_cons_iff]
      exact or_or_or_comm

/-- Written on one line, a statement is pure when its lines are and what the breaks part is allowed. -/
theorem isPureCode_oneLine
    {lines : List Text}
    (plain : BreaksPlainly lines) :
    isPureCode (oneLine lines) =
      (lines.all isPureCode && (partedCalleesOf lines).all (·.isAllowed)) := by
  rw [Bool.eq_iff_iff, isPureCode_iff, Bool.and_eq_true, List.all_eq_true, List.all_eq_true]
  simp only [mem_wordsOf_oneLine plain, mem_calleesOf_oneLine plain, isPureCode_iff]
  constructor
  · rintro ⟨words, callees⟩
    exact ⟨fun line member => ⟨fun word isWord => words word ⟨line, member, isWord⟩,
      fun callee isCallee => callees callee (.inl ⟨line, member, isCallee⟩)⟩,
      fun callee parted => callees callee (.inr parted)⟩
  · rintro ⟨pure, parted⟩
    refine ⟨?_, ?_⟩
    · rintro word ⟨line, member, isWord⟩
      exact (pure line member).1 word isWord
    · rintro callee (⟨line, member, isCallee⟩ | isParted)
      · exact (pure line member).2 callee isCallee
      · exact parted callee isParted

/--
Lines of a statement are pure when the statement has no word with effects, and
calls nothing that is not allowed apart from what no line calls by itself.
-/
theorem all_isPureCode_iff
    {lines : List Text}
    (plain : BreaksPlainly lines) :
    lines.all isPureCode = true ↔
      (∀ word ∈ wordsOf (oneLine lines), word ∉ effectWords) ∧
        ∀ callee ∈ calleesOf (oneLine lines),
          callee.isAllowed = true ∨ ∀ line ∈ lines, callee ∉ calleesOf line := by
  rw [List.all_eq_true]
  simp only [mem_wordsOf_oneLine plain, mem_calleesOf_oneLine plain, isPureCode_iff]
  constructor
  · intro pure
    refine ⟨?_, fun callee _ => ?_⟩
    · rintro word ⟨line, member, isWord⟩
      exact (pure line member).1 word isWord
    · by_cases calledAlone : ∃ line ∈ lines, callee ∈ calleesOf line
      · obtain ⟨line, member, isCallee⟩ := calledAlone
        exact .inl ((pure line member).2 callee isCallee)
      · exact .inr fun line member isCallee => calledAlone ⟨line, member, isCallee⟩
  · rintro ⟨words, callees⟩ line member
    refine ⟨fun word isWord => words word ⟨line, member, isWord⟩, fun callee isCallee => ?_⟩
    exact (callees callee (.inl ⟨line, member, isCallee⟩)).resolve_right
      fun notAlone => notAlone line member isCallee

end ScriptUplift
