import Mathlib.Data.List.Basic
import Mathlib.Tactic.Common
import ScriptUplift.Proofs.BuiltCalls

namespace ScriptUplift

/-!
# Calls in arguments that are carried over

The newer form of a call carries arguments of the old one as they are.  A call
that stands in such an argument is read alike at its new place, because it ends
in the argument; and the words that a newer form adds make no call of another
name.  So replacing the calls of one name brings up no call of another that can
be replaced.
-/

/-- A list that is read is read alike with more text behind it. -/
theorem readPieces_append_below
    {quoting : Quoting}
    {depth : Nat}
    {text : Text}
    {pieces : List Text}
    {rest : Text}
    (read : readPieces quoting depth text = some (pieces, rest))
    (below : Text) :
    readPieces quoting depth (text ++ below) = some (pieces, rest ++ below) := by
  induction text generalizing quoting depth pieces rest with
  | nil =>
      cases read
  | cons character others inductionHypothesis =>
      rw [List.cons_append, readPieces]
      unfold readPieces at read
      cases advanced : advance quoting depth character with
      | some next =>
          rw [advanced] at read
          obtain ⟨⟨foundPieces, foundRest⟩, found, shape⟩ := Option.map_eq_some_iff.mp read
          dsimp only
          rw [inductionHypothesis found]
          cases foundPieces <;> cases shape <;> rfl
      | none =>
          rw [advanced] at read
          dsimp only at read ⊢
          split
          · rename_i comma
            rw [if_pos comma] at read
            obtain ⟨⟨foundPieces, foundRest⟩, found, shape⟩ := Option.map_eq_some_iff.mp read
            obtain ⟨rfl, rfl⟩ := Prod.mk.inj shape
            rw [inductionHypothesis found]
            rfl
          · rename_i notComma
            rw [if_neg notComma] at read
            obtain ⟨rfl, rfl⟩ := Prod.mk.inj (Option.some.inj read)
            rfl

/-- Text in which a list does not end goes down to no lower depth. -/
theorem depth_le_of_unread
    {quoting : Quoting}
    {depth : Nat}
    {text : Text}
    (unread : readPieces quoting depth text = none)
    (more : Nat)
    {last : Quoting}
    {lastDepth : Nat}
    (walked : walk quoting (depth + (more + 1)) text = some (last, lastDepth)) :
    more + 1 ≤ lastDepth := by
  induction text generalizing quoting depth with
  | nil =>
      obtain ⟨_, rfl⟩ := Prod.mk.inj (Option.some.inj walked)
      omega
  | cons character rest inductionHypothesis =>
      unfold readPieces at unread
      cases advanced : advance quoting depth character with
      | some next =>
          rw [advanced] at unread
          rw [walk, advance_raise advanced] at walked
          exact inductionHypothesis (Option.map_eq_none_iff.mp unread) walked
      | none =>
          obtain ⟨rfl, rfl, _, step, ends⟩ := advance_eq_none advanced
          rw [advanced] at unread
          rcases ends with rfl | ⟨_, notComma⟩
          · dsimp only at unread
            rw [if_pos rfl] at unread
            have comma : advance .outside (0 + (more + 1)) ',' =
                some (.outside, 0 + (more + 1)) := by
              simp [advance, isOpeningBracket, isClosingBracket, Quoting.step, isQuoteMark]
            rw [walk, comma] at walked
            exact inductionHypothesis (Option.map_eq_none_iff.mp unread) walked
          · simp [notComma] at unread

/-- A list that opens in a closed text ends in it. -/
theorem exists_readPieces_of_isClosed
    {above body : Text}
    (closed : IsClosed (above ++ '(' :: body))
    (outside : Quoting.outside.through above = .outside) :
    ∃ pieces rest, readPieces .outside 0 body = some (pieces, rest) := by
  unfold IsClosed at closed
  rw [walk_append] at closed
  obtain ⟨⟨quoting, depth⟩, walked, behind⟩ := Option.bind_eq_some_iff.mp closed
  obtain rfl : quoting = .outside :=
    (through_of_walk walked).symm.trans outside
  have opens : advance .outside depth '(' = some (.outside, depth + 1) := by
    simp [advance, isOpeningBracket]
  rw [walk, opens, Option.bind_some] at behind
  cases read : readPieces .outside 0 body with
  | some found =>
      exact ⟨found.1, found.2, rfl⟩
  | none =>
      have lower := depth_le_of_unread read depth (by rwa [Nat.zero_add])
      omega

/-- A name at the end of a text is called by nothing but a list behind it. -/
theorem callAt_word_append
    {start : Text}
    (ends : start.all isIdentifierChar = true)
    {mark : Char}
    (notWord : isIdentifierChar mark = false)
    (notSpace : mark ≠ ' ')
    (notBracket : mark ≠ '(')
    (callee below : Text) :
    callAt callee (start ++ mark :: below) = none := by
  have whole : (start ++ mark :: below).takeWhile isIdentifierChar = start := by
    rw [List.takeWhile_append_of_pos (List.all_eq_true.mp ends),
      List.takeWhile_cons_of_neg (by simp [notWord]), List.append_nil]
  unfold callAt
  rw [whole]
  split
  · rename_i isCallee
    rw [← isCallee, List.drop_left, List.dropWhile_cons_of_neg (by simp [notSpace]),
      listAt_of_ne notBracket]
  · rfl

/-- Behind the name at its start, a text that ends visibly is more than spaces. -/
theorem exists_behind_callee
    {callee start : Text}
    (ends : start.all isIdentifierChar = false)
    (visible : ∀ character, start.getLast? = some character → isBlankChar character = false)
    (isCallee : start.takeWhile isIdentifierChar = callee) :
    ∃ gap character body,
      (start.drop callee.length).dropWhile (· == ' ') = character :: body ∧
        start = callee ++ gap ++ character :: body ∧
        Quoting.outside.through (callee ++ gap) = .outside := by
  have word : callee ++ start.drop callee.length = start := by
    rw [← isCallee, drop_length_takeWhile, List.takeWhile_append_dropWhile]
  have split : (start.drop callee.length).takeWhile (· == ' ') ++
      (start.drop callee.length).dropWhile (· == ' ') = start.drop callee.length :=
    List.takeWhile_append_dropWhile
  have outside : Quoting.outside.through
      (callee ++ (start.drop callee.length).takeWhile (· == ' ')) = .outside := by
    rw [Quoting.through_append, ← isCallee, (through_word_and_spaces start).1,
      (through_word_and_spaces _).2]
  cases behind : (start.drop callee.length).dropWhile (· == ' ') with
  | cons character body =>
      refine ⟨_, character, body, rfl, ?_, outside⟩
      rw [← behind, List.append_assoc, split, word]
  | nil =>
      rw [behind, List.append_nil] at split
      exfalso
      cases isLast : start.getLast? with
      | none =>
          rw [List.getLast?_eq_none_iff.mp isLast] at ends
          cases ends
      | some last =>
          have inked := visible last isLast
          rw [← word, List.getLast?_append] at isLast
          cases isSpace : (start.drop callee.length).getLast? with
          | none =>
              rw [List.getLast?_eq_none_iff.mp isSpace, List.append_nil] at word
              rw [← word, ← isCallee, List.all_takeWhile] at ends
              cases ends
          | some space =>
              rw [isSpace] at isLast
              obtain rfl : space = last := Option.some.inj isLast
              rw [← split] at isSpace
              have same := List.mem_takeWhile_imp (List.mem_of_getLast? isSpace)
              rw [beq_iff_eq.mp same] at inked
              cases inked

/-- A call that starts in a closed text and ends visibly is the same call wherever the text stands. -/
theorem siteAt_of_isClosed
    {callee text start : Text}
    (closed : IsClosed text)
    (visible : ∀ character, text.getLast? = some character → isBlankChar character = false)
    (member : start ∈ wordStarts .outside false text)
    {mark : Char}
    (notWord : isIdentifierChar mark = false)
    (notSpace : mark ≠ ' ')
    (notBracket : mark ≠ '(')
    {below : Text}
    {site : CallSite}
    (found : siteAt callee (start ++ mark :: below) = some site)
    (other : Text) :
    ∃ there, siteAt callee (start ++ other) = some there ∧ there.arguments = site.arguments := by
  obtain ⟨above, rfl, apart⟩ := exists_above_of_mem_wordStarts member
  obtain ⟨⟨pieces, rest⟩, called, rfl⟩ := Option.map_eq_some_iff.mp found
  cases ends : start.all isIdentifierChar with
  | true =>
      rw [callAt_word_append ends notWord notSpace notBracket] at called
      cases called
  | false =>
      by_cases isCallee : start.takeWhile isIdentifierChar = callee
      · have startVisible : ∀ character, start.getLast? = some character →
            isBlankChar character = false := by
          intro character isLast
          exact visible character (by rw [List.getLast?_append, isLast]; rfl)
        obtain ⟨gap, character, body, behind, shape, outside⟩ :=
          exists_behind_callee ends startVisible isCallee
        rw [callAt_append ends isCallee behind] at called
        by_cases opens : character = '('
        · subst opens
          rw [shape, ← List.append_assoc] at closed
          have aboveOutside : Quoting.outside.through (above ++ (callee ++ gap)) = .outside := by
            rw [Quoting.through_append, apart.outside, outside]
          obtain ⟨own, ownRest, read⟩ := exists_readPieces_of_isClosed closed aboveOutside
          have here : readPieces .outside 0 (body ++ mark :: below) = some (pieces, rest) :=
            called
          rw [readPieces_append_below read] at here
          obtain ⟨rfl, rfl⟩ := Prod.mk.inj (Option.some.inj here)
          refine ⟨⟨start ++ other, argumentsOf own, ownRest ++ other⟩, ?_, rfl⟩
          rw [siteAt, callAt_append ends isCallee behind, listAt, readPieces_append_below read]
          rfl
        · rw [listAt_of_ne opens] at called
          cases called
      · rw [callAt, (takeWhile_append_of_not_all ends _).1, if_neg isCallee] at called
        cases called

theorem sitesAbove_append
    (callee : Text)
    {first : Text}
    (apart : EndsApart .outside false first)
    (second below : Text) :
    sitesAbove callee (first ++ second) below =
      sitesAbove callee first (second ++ below) ++ sitesAbove callee second below := by
  unfold sitesAbove
  rw [wordStarts_append, apart.outside, apart.noWord, List.filterMap_append, List.filterMap_map]
  congr 1
  refine List.filterMap_congr fun start _ => ?_
  simp

theorem endsInWord_append
    (quoting : Quoting)
    (inWord : Bool)
    (first second : Text) :
    endsInWord quoting inWord (first ++ second) =
      endsInWord (quoting.through first) (endsInWord quoting inWord first) second := by
  induction first generalizing quoting inWord with
  | nil =>
      rfl
  | cons character rest inductionHypothesis =>
      exact inductionHypothesis _ _

theorem EndsApart.append
    {quoting : Quoting}
    {inWord : Bool}
    {first second : Text}
    (firstApart : EndsApart quoting inWord first)
    (secondApart : EndsApart .outside false second) :
    EndsApart quoting inWord (first ++ second) := by
  constructor
  · rw [Quoting.through_append, firstApart.outside, secondApart.outside]
  · rw [endsInWord_append, firstApart.outside, firstApart.noWord, secondApart.noWord]

theorem endsApart_concat
    {quoting : Quoting}
    {inWord : Bool}
    {text : Text}
    (outside : quoting.through text = .outside)
    {mark : Char}
    (notWord : isIdentifierChar mark = false)
    (noQuote : isQuoteMark mark = false) :
    EndsApart quoting inWord (text ++ [mark]) := by
  constructor
  · rw [Quoting.through_append, outside]
    simp [Quoting.step, noQuote]
  · induction text generalizing quoting inWord with
    | nil =>
        simp [endsInWord, Quoting.isWordChar, notWord]
    | cons character rest inductionHypothesis =>
        exact inductionHypothesis outside

/-- The calls above a mark that is in no word start above it. -/
theorem sitesAbove_concat
    (callee text : Text)
    {mark : Char}
    (notWord : isIdentifierChar mark = false)
    (below : Text) :
    sitesAbove callee (text ++ [mark]) below =
      (wordStarts .outside false text).filterMap fun start => siteAt callee (start ++ mark :: below) := by
  have noStart (quoting : Quoting) (inWord : Bool) : wordStarts quoting inWord [mark] = [] := by
    simp [wordStarts, Quoting.isWordChar, notWord]
  unfold sitesAbove
  rw [wordStarts_append, noStart, List.append_nil, List.filterMap_map]
  refine List.filterMap_congr fun start _ => ?_
  simp

/-- A word alone starts once. -/
theorem wordStarts_of_word
    {word : Text}
    (letters : word.all isIdentifierChar = true)
    (nonempty : word ≠ []) :
    wordStarts .outside false word = [word] := by
  have noneBelow {rest : Text} (letters : rest.all isIdentifierChar = true) :
      wordStarts .outside true rest = [] := by
    induction rest with
    | nil =>
        rfl
    | cons character rest inductionHypothesis =>
        rw [List.all_cons, Bool.and_eq_true] at letters
        obtain ⟨isWord, goesOn⟩ := step_of_isIdentifierChar letters.1
        rw [wordStarts, isWord, goesOn, inductionHypothesis letters.2]
        rfl
  cases word with
  | nil =>
      exact absurd rfl nonempty
  | cons character rest =>
      rw [List.all_cons, Bool.and_eq_true] at letters
      obtain ⟨isWord, goesOn⟩ := step_of_isIdentifierChar letters.1
      rw [wordStarts, isWord, goesOn, noneBelow letters.2]
      rfl

/-- A word makes no call of another name, and none at all before a mark that begins no list. -/
theorem sitesAbove_word
    {callee word : Text}
    (named : isIdentifier word = true)
    {mark : Char}
    (notWord : isIdentifierChar mark = false)
    (other : word ≠ callee ∨ (mark ≠ ' ' ∧ mark ≠ '('))
    (below : Text) :
    sitesAbove callee (word ++ [mark]) below = [] := by
  have letters : word.all isIdentifierChar = true :=
    all_isIdentifierChar_of_isIdentifier named
  have nonempty : word ≠ [] := by
    rintro rfl
    cases named
  rw [sitesAbove_concat callee word notWord, wordStarts_of_word letters nonempty]
  have whole : (word ++ mark :: below).takeWhile isIdentifierChar = word := by
    rw [List.takeWhile_append_of_pos (List.all_eq_true.mp letters),
      List.takeWhile_cons_of_neg (by simp [notWord]), List.append_nil]
  have noCall : siteAt callee (word ++ mark :: below) = none := by
    unfold siteAt callAt
    rw [whole]
    split
    · rename_i isCallee
      obtain ⟨notSpace, notBracket⟩ := other.resolve_left (absurd isCallee)
      rw [← isCallee, List.drop_left, List.dropWhile_cons_of_neg (by simp [notSpace]),
        listAt_of_ne notBracket]
      rfl
    · rfl
  simp [noCall]

/-- The marks that part words and arguments in a newer form and open no list. -/
def partingMarks : List Char :=
  ['.', ',', ')']

theorem partingMarks_spec
    {mark : Char}
    (parts : mark ∈ partingMarks) :
    isIdentifierChar mark = false ∧ isQuoteMark mark = false ∧ (mark ≠ ' ' ∧ mark ≠ '(') := by
  simp only [partingMarks, List.mem_cons, List.not_mem_nil, or_false] at parts
  rcases parts with rfl | rfl | rfl <;> decide

/-- A text put together from words that do not call a name and from arguments that are carried over. -/
inductive Assembled
    (callee : Text)
    (arguments : List Text) :
    Text → Prop
  | done :
      Assembled callee arguments []
  | mark
      {mark : Char}
      {rest : Text}
      (parts : mark ∈ [' ', ')', ':'])
      (below : Assembled callee arguments rest) :
      Assembled callee arguments (mark :: rest)
  | word
      {word : Text}
      {mark : Char}
      {rest : Text}
      (named : isIdentifier word = true)
      (parts : mark ∈ partingMarks)
      (below : Assembled callee arguments rest) :
      Assembled callee arguments (word ++ mark :: rest)
  | otherWord
      {word : Text}
      {mark : Char}
      {rest : Text}
      (named : isIdentifier word = true)
      (other : word ≠ callee)
      (begins : mark ∈ [' ', '('])
      (below : Assembled callee arguments rest) :
      Assembled callee arguments (word ++ mark :: rest)
  | argument
      {argument : Text}
      {mark : Char}
      {rest : Text}
      (member : argument ∈ arguments)
      (parts : mark ∈ partingMarks)
      (below : Assembled callee arguments rest) :
      Assembled callee arguments (argument ++ mark :: rest)

/-- No call that starts in a text can be replaced, whatever parting mark follows. -/
def SpentInside
    (callee : Text)
    (build : List Text → Option Text)
    (text : Text) :
    Prop :=
  ∀ mark ∈ partingMarks, ∀ below, ∀ site ∈ sitesAbove callee (text ++ [mark]) below,
    build site.arguments = none

/-- A text that is put together brings no call that can be replaced. -/
theorem Assembled.spent
    {callee : Text}
    {build : List Text → Option Text}
    {arguments : List Text}
    (closed : ∀ argument ∈ arguments, IsClosed argument)
    (spent : ∀ argument ∈ arguments, SpentInside callee build argument)
    {text : Text}
    (assembled : Assembled callee arguments text)
    (below : Text) :
    ∀ site ∈ sitesAbove callee text below, build site.arguments = none := by
  have step (first : Text) {rest : Text} {mark : Char} (outside : Quoting.outside.through first = .outside)
      (notWord : isIdentifierChar mark = false) (noQuote : isQuoteMark mark = false)
      (own : ∀ site ∈ sitesAbove callee (first ++ [mark]) (rest ++ below),
        build site.arguments = none)
      (others : ∀ site ∈ sitesAbove callee rest below, build site.arguments = none) :
      ∀ site ∈ sitesAbove callee (first ++ mark :: rest) below, build site.arguments = none := by
    have shape : first ++ mark :: rest = (first ++ [mark]) ++ rest := by
      simp
    rw [shape, sitesAbove_append callee (endsApart_concat outside notWord noQuote)]
    exact List.forall_mem_append.mpr ⟨own, others⟩
  induction assembled with
  | done =>
      exact fun _ member => absurd member List.not_mem_nil
  | @mark mark rest parts _ inductionHypothesis =>
      obtain ⟨notWord, noQuote⟩ : isIdentifierChar mark = false ∧ isQuoteMark mark = false := by
        simp only [List.mem_cons, List.not_mem_nil, or_false] at parts
        rcases parts with rfl | rfl | rfl <;> decide
      refine step [] rfl notWord noQuote ?_ inductionHypothesis
      rw [sitesAbove_concat callee [] notWord]
      exact fun _ member => absurd member List.not_mem_nil
  | word named parts _ inductionHypothesis =>
      obtain ⟨notWord, noQuote, noList⟩ := partingMarks_spec parts
      refine step _ (isClosed_of_isIdentifier named).through_eq notWord noQuote ?_ inductionHypothesis
      rw [sitesAbove_word named notWord (.inr noList)]
      exact fun _ member => absurd member List.not_mem_nil
  | @otherWord word mark rest named other begins _ inductionHypothesis =>
      obtain ⟨notWord, noQuote⟩ : isIdentifierChar mark = false ∧ isQuoteMark mark = false := by
        simp only [List.mem_cons, List.not_mem_nil, or_false] at begins
        rcases begins with rfl | rfl <;> decide
      refine step _ (isClosed_of_isIdentifier named).through_eq notWord noQuote ?_
        inductionHypothesis
      rw [sitesAbove_word named notWord (.inl other)]
      exact fun _ member => absurd member List.not_mem_nil
  | argument member parts _ inductionHypothesis =>
      obtain ⟨notWord, noQuote, _⟩ := partingMarks_spec parts
      exact step _ (closed _ member).through_eq notWord noQuote (spent _ member _ parts _)
        inductionHypothesis

/-- Where the pieces of a list stand between its commas. -/
theorem exists_around_of_mem_pieces
    {pieces : List Text}
    (closed : ∀ piece ∈ pieces, IsClosed piece)
    {piece : Text}
    (member : piece ∈ pieces)
    (below : Text) :
    ∃ above rest, Text.joinWith [','] pieces ++ below = above ++ (piece ++ rest) ∧
      EndsApart .outside false above := by
  induction pieces with
  | nil =>
      cases member
  | cons first others inductionHypothesis =>
      obtain ⟨firstClosed, othersClosed⟩ := List.forall_mem_cons.mp closed
      rcases List.mem_cons.mp member with rfl | later
      · refine ⟨[], ?_, ?_, ⟨rfl, rfl⟩⟩
        · exact (Text.joinWith [','] (piece :: others)).drop piece.length ++ below
        · cases others with
          | nil =>
              simp [Text.joinWith_singleton]
          | cons second rest =>
              simp [Text.joinWith_cons_cons]
      · obtain ⟨above, rest, shape, apart⟩ := inductionHypothesis othersClosed later
        cases others with
        | nil =>
            cases later
        | cons second remaining =>
            have comma : EndsApart .outside false (first ++ [',']) :=
              endsApart_concat firstClosed.through_eq (by decide) (by decide)
            have joined : Text.joinWith [','] (first :: second :: remaining) =
                (first ++ [',']) ++ Text.joinWith [','] (second :: remaining) := by
              simp [Text.joinWith_cons_cons]
            refine ⟨(first ++ [',']) ++ above, rest, ?_, ?_⟩
            · rw [joined, List.append_assoc, shape]
              simp only [List.append_assoc]
            · exact comma.append apart

/-- No character is both blank and part of words. -/
def BlanksPartWords
    (text : Text) :
    Prop :=
  ∀ character ∈ text, isBlankChar character = true → isIdentifierChar character = false

instance (text : Text) : Decidable (BlanksPartWords text) :=
  List.decidableBAll _ text

theorem BlanksPartWords.of_subset
    {first second : Text}
    (blanksPart : BlanksPartWords first)
    (inFirst : second ⊆ first) :
    BlanksPartWords second :=
  fun character member => blanksPart character (inFirst member)

@[simp] theorem blanksPartWords_append
    (first second : Text) :
    BlanksPartWords (first ++ second) ↔ BlanksPartWords first ∧ BlanksPartWords second :=
  List.forall_mem_append

@[simp] theorem blanksPartWords_nil : BlanksPartWords [] :=
  fun _ member => absurd member List.not_mem_nil

/-- Behind blanks a word can start. -/
theorem endsApart_of_blank
    {text : Text}
    (blank : text.all isBlankChar = true)
    (blanksPart : BlanksPartWords text) :
    EndsApart .outside false text := by
  rw [List.all_eq_true] at blank
  have plain : text.all isPlainChar = true :=
    List.all_eq_true.mpr fun character member => isPlainChar_of_isBlankChar (blank character member)
  rcases List.eq_nil_or_concat' text with rfl | ⟨front, last, rfl⟩
  · exact ⟨rfl, rfl⟩
  · have lastMember : last ∈ front ++ [last] :=
      List.mem_append_right _ List.mem_cons_self
    have noQuote := isQuoteMark_of_isPlainChar (List.all_eq_true.mp plain last lastMember)
    rw [List.all_append, Bool.and_eq_true] at plain
    exact endsApart_concat (isClosed_of_plain plain.1).through_eq
      (blanksPart last lastMember (blank last lastMember)) noQuote

/-- In code without a call that can be replaced, no argument of a call has one. -/
theorem spentInside_of_mem_argumentsOf
    {callee : Text}
    {build : List Text → Option Text}
    {pieces : List Text}
    (closed : ∀ piece ∈ pieces, IsClosed piece)
    {above below : Text}
    (apart : EndsApart .outside false above)
    (blanksPart : ∀ piece ∈ pieces, BlanksPartWords piece)
    (spent : ∀ site ∈ callSites callee (above ++ (Text.joinWith [','] pieces ++ below)),
      build site.arguments = none)
    {argument : Text}
    (member : argument ∈ argumentsOf pieces) :
    SpentInside callee build argument := by
  obtain ⟨piece, isPiece, rfl⟩ := exists_of_mem_argumentsOf member
  obtain ⟨before, after, shape, beforeApart⟩ := exists_around_of_mem_pieces closed isPiece below
  obtain ⟨front, back, frontBlank, backBlank, trimmed⟩ := piece.exists_trim
  intro mark parts other site siteMember
  obtain ⟨notWord, _, notSpace, notBracket⟩ := partingMarks_spec parts
  rw [sitesAbove_concat callee _ notWord] at siteMember
  obtain ⟨start, isStart, found⟩ := List.mem_filterMap.mp siteMember
  have visible (character : Char) (isLast : piece.trim.getLast? = some character) :
      isBlankChar character = false := by
    rw [Text.getLast?_trim] at isLast
    simpa using List.find?_some isLast
  obtain ⟨there, isThere, sameArguments⟩ := siteAt_of_isClosed (walk_trim (closed piece isPiece))
    visible isStart notWord notSpace notBracket found (back ++ after)
  have frontApart : EndsApart .outside false front := by
    refine endsApart_of_blank frontBlank fun character isFront => ?_
    apply blanksPart piece isPiece
    rw [trimmed]
    exact List.mem_append_left _ isFront
  have inCode : there ∈ callSites callee (above ++ (Text.joinWith [','] pieces ++ below)) := by
    have layout : above ++ (Text.joinWith [','] pieces ++ below) =
        (above ++ (before ++ front)) ++ (piece.trim ++ (back ++ after)) := by
      rw [shape]
      conv_lhs => rw [trimmed]
      simp only [List.append_assoc]
    rw [layout]
    refine List.mem_filterMap.mpr ⟨start ++ (back ++ after), ?_, isThere⟩
    have outerApart := apart.append (beforeApart.append frontApart)
    have inPiece : start ++ (back ++ after) ∈
        wordStarts .outside false (piece.trim ++ (back ++ after)) := by
      rw [wordStarts_append]
      exact List.mem_append_left _ (List.mem_map_of_mem isStart)
    rw [wordStarts_append, outerApart.outside, outerApart.noWord]
    exact List.mem_append_right _ inPiece
  rw [← sameArguments]
  exact spent there inCode

theorem blanksPartWords_of_identifierLiteral
    {text name : Text}
    (blanksPart : BlanksPartWords text)
    (literal : identifierLiteral? text = some name) :
    BlanksPartWords name := by
  obtain ⟨mark, _, inside⟩ := exists_of_stringLiteral? (Option.filter_eq_some_iff.mp literal).1
  refine blanksPart.of_subset fun character member => inside.subset ?_
  exact List.mem_cons_of_mem _ (List.mem_append_left _ member)

theorem blanksPartWords_joinWith
    {separator : Text}
    (separatorParts : BlanksPartWords separator)
    (pieces : List Text) :
    BlanksPartWords (Text.joinWith separator pieces) ↔ ∀ piece ∈ pieces, BlanksPartWords piece := by
  induction pieces with
  | nil =>
      simp [Text.joinWith]
  | cons first others inductionHypothesis =>
      cases others with
      | nil =>
          simp [Text.joinWith_singleton]
      | cons second rest =>
          rw [Text.joinWith_cons_cons, blanksPartWords_append, blanksPartWords_append, inductionHypothesis]
          simp [separatorParts]

theorem blanksPartWords_bindSuffix?
    {binds bound : Text}
    (blanksPart : BlanksPartWords binds)
    (isBound : bindSuffix? binds = some bound) :
    BlanksPartWords bound := by
  obtain ⟨inner, rfl, rfl⟩ := bindSuffix?_eq_some isBound
  split
  · exact blanksPartWords_nil
  · have innerParts : BlanksPartWords inner.trim :=
      blanksPart.of_subset fun _ member =>
        List.mem_cons_of_mem _ (List.mem_append_left _ ((Text.trim_sublist inner).subset member))
    rw [blanksPartWords_append, blanksPartWords_append]
    exact ⟨⟨by decide, innerParts⟩, by decide⟩

theorem blanksPartWords_rebuiltSignalCall?
    {method : String}
    (methodParts : BlanksPartWords method.toList)
    {extras : Bool}
    {arguments : List Text}
    (blanksPart : ∀ argument ∈ arguments, BlanksPartWords argument)
    {text : Text}
    (built : rebuiltSignalCall? method extras arguments = some text) :
    BlanksPartWords text := by
  obtain ⟨signalText, target, handlerText, more, signal, handler, bound, rfl, _, isSignal,
    isHandler, isBound, rfl⟩ := rebuiltSignalCall?_eq_some built
  obtain ⟨signalParts, targetParts, handlerParts, moreParts⟩ : BlanksPartWords signalText ∧
      BlanksPartWords target ∧ BlanksPartWords handlerText ∧
      ∀ argument ∈ more, BlanksPartWords argument := by
    simpa using blanksPart
  have ownSignal := blanksPartWords_of_identifierLiteral signalParts isSignal
  have ownHandler := blanksPartWords_of_identifierLiteral handlerParts isHandler
  have ownCallable : BlanksPartWords (if target = "self".toList then handler
      else target ++ ['.'] ++ handler) := by
    split
    · exact ownHandler
    · rw [blanksPartWords_append, blanksPartWords_append]
      exact ⟨⟨targetParts, by decide⟩, ownHandler⟩
  have ownBound : BlanksPartWords bound := by
    cases more with
    | nil =>
        obtain rfl := Option.some.inj isBound
        exact blanksPartWords_nil
    | cons binds _ =>
        exact blanksPartWords_bindSuffix? (moreParts binds List.mem_cons_self) isBound
  have ownFlags : BlanksPartWords ((more[1]?.map (", ".toList ++ ·)).getD []) := by
    cases flags : more[1]? with
    | none =>
        exact blanksPartWords_nil
    | some flag =>
        rw [Option.map_some, Option.getD_some, blanksPartWords_append]
        exact ⟨by decide, moreParts flag (List.mem_of_getElem? flags)⟩
  simp only [blanksPartWords_append]
  exact ⟨⟨⟨⟨⟨⟨⟨ownSignal, by decide⟩, methodParts⟩, by decide⟩, ownCallable⟩, ownBound⟩, ownFlags⟩,
    by decide⟩

theorem blanksPartWords_emitCall?
    {arguments : List Text}
    (blanksPart : ∀ argument ∈ arguments, BlanksPartWords argument)
    {text : Text}
    (built : emitCall? arguments = some text) :
    BlanksPartWords text := by
  obtain ⟨_, _, signal, rfl, isSignal, rfl⟩ := emitCall?_eq_some built
  obtain ⟨signalParts, valuesPart⟩ := List.forall_mem_cons.mp blanksPart
  have separator : BlanksPartWords ", ".toList := by
    decide
  simp only [blanksPartWords_append, blanksPartWords_joinWith separator]
  exact ⟨⟨⟨blanksPartWords_of_identifierLiteral signalParts isSignal, by decide⟩, valuesPart⟩,
    by decide⟩

/-- A connection without extras is put together from words and from the target. -/
theorem assembled_rebuiltSignalCall?
    {callee : Text}
    {method : String}
    (named : isIdentifier method.toList = true)
    (other : method.toList ≠ callee)
    {arguments : List Text}
    {text : Text}
    (built : rebuiltSignalCall? method false arguments = some text) :
    Assembled callee arguments text := by
  obtain ⟨signalText, target, handlerText, more, signal, handler, bound, rfl, allowed, isSignal,
    isHandler, isBound, rfl⟩ := rebuiltSignalCall?_eq_some built
  have noMore : more = [] := by
    simpa using (Bool.or_eq_false_iff.mp allowed).1
  subst noMore
  obtain rfl := Option.some.inj isBound
  have handled : Assembled callee (signalText :: target :: handlerText :: []) (handler ++ [')']) :=
    .word (identifierLiteral?_eq_some isHandler).1 (by decide) .done
  have called : Assembled callee (signalText :: target :: handlerText :: [])
      ((if target = "self".toList then handler else target ++ ['.'] ++ handler) ++ [')']) := by
    split
    · exact handled
    · rw [List.append_assoc, List.append_assoc]
      exact .argument (by simp) (by decide) handled
  have whole := Assembled.word (identifierLiteral?_eq_some isSignal).1
    (by decide : '.' ∈ partingMarks) (.otherWord named other (by decide : '(' ∈ [' ', '(']) called)
  simpa using whole

/-- Some of the arguments, joined and closed, are put together from arguments. -/
theorem assembled_joinWith
    {callee : Text}
    {arguments some : List Text}
    (among : some ⊆ arguments) :
    Assembled callee arguments (Text.joinWith ", ".toList some ++ [')']) := by
  induction some with
  | nil =>
      exact .mark (by decide) .done
  | cons first others inductionHypothesis =>
      have member : first ∈ arguments :=
        among List.mem_cons_self
      cases others with
      | nil =>
          rw [Text.joinWith_singleton]
          exact .argument member (by decide) .done
      | cons second rest =>
          have shape : Text.joinWith ", ".toList (first :: second :: rest) ++ [')'] =
              first ++ ',' :: ' ' :: (Text.joinWith ", ".toList (second :: rest) ++ [')']) := by
            simp [Text.joinWith_cons_cons]
          rw [shape]
          exact .argument member (by decide) (.mark (by decide)
            (inductionHypothesis (List.subset_of_cons_subset among)))

/-- An emission is put together from words and from its values. -/
theorem assembled_emitCall?
    {callee : Text}
    (other : "emit".toList ≠ callee)
    {arguments : List Text}
    {text : Text}
    (built : emitCall? arguments = some text) :
    Assembled callee arguments text := by
  obtain ⟨signalText, values, signal, rfl, isSignal, rfl⟩ := emitCall?_eq_some built
  have whole := Assembled.word (identifierLiteral?_eq_some isSignal).1
    (by decide : '.' ∈ partingMarks)
    (.otherWord (by decide) other (by decide : '(' ∈ [' ', '('])
      (assembled_joinWith (List.subset_cons_self signalText values)))
  simpa using whole

namespace ReplacesCalls

variable {rule later : UpliftRule} {callee laterCallee : String}
  {build laterBuild : List Text → Option Text}

theorem blanksPartWords
    (replaces : ReplacesCalls rule callee build)
    (notSuspension : rule ≠ .suspension)
    {arguments : List Text}
    (blanksPart : ∀ argument ∈ arguments, BlanksPartWords argument)
    {text : Text}
    (built : build arguments = some text) :
    BlanksPartWords text := by
  cases replaces with
  | connect | disconnect | isConnected =>
      exact blanksPartWords_rebuiltSignalCall? (by decide) blanksPart built
  | emit =>
      exact blanksPartWords_emitCall? blanksPart built
  | suspension =>
      exact absurd rfl notSuspension

/-- A signal rule without extras puts its text together from words that other rules do not call. -/
theorem assembled
    (replaces : ReplacesCalls rule callee build)
    (notSuspension : rule ≠ .suspension)
    (laterReplaces : ReplacesCalls later laterCallee laterBuild)
    (plain : later = .disconnect ∨ later = .isConnected ∨ later = .emit)
    (other : rule ≠ later)
    {arguments : List Text}
    {text : Text}
    (built : laterBuild arguments = some text) :
    Assembled callee.toList arguments text := by
  cases laterReplaces with
  | connect | suspension =>
      simp at plain
  | disconnect | isConnected =>
      refine assembled_rebuiltSignalCall? (by decide) ?_ built
      cases replaces <;> first | decide | exact absurd rfl other
  | emit =>
      refine assembled_emitCall? ?_ built
      cases replaces <;> decide

end ReplacesCalls

/-- The arguments of a call stand in its text. -/
theorem CallText.subset
    {callee : Text}
    {pieces : List Text}
    {text : Text}
    (called : CallText callee pieces text) :
    ∀ piece ∈ pieces, piece ⊆ text := by
  obtain ⟨closed, gap, closing, _, _, rfl⟩ := called
  intro piece member
  obtain ⟨above, rest, shape, _⟩ := exists_around_of_mem_pieces closed member [closing]
  rw [shape]
  intro character inPiece
  simp [inPiece]

theorem subset_of_mem_argumentsOf
    {pieces : List Text}
    {argument : Text}
    (member : argument ∈ argumentsOf pieces) :
    ∃ piece ∈ pieces, argument ⊆ piece := by
  obtain ⟨piece, isPiece, rfl⟩ := exists_of_mem_argumentsOf member
  exact ⟨piece, isPiece, (Text.trim_sublist piece).subset⟩

/-- A closed text that ends in a bracket ends apart. -/
theorem endsApart_of_isClosed
    {text : Text}
    {last : Char}
    (closed : IsClosed (text ++ [last]))
    (notWord : isIdentifierChar last = false)
    (noQuote : isQuoteMark last = false) :
    EndsApart .outside false (text ++ [last]) := by
  have start : Quoting.outside.IsProper :=
    trivial
  have whole := closed.through_eq
  rw [Quoting.through_append] at whole
  exact endsApart_concat
    (Quoting.outside_of_step (Quoting.isProper_through start _) noQuote whole) notWord noQuote

theorem IsSignalForm.endsApart
    {text : Text}
    (form : IsSignalForm text)
    (closed : IsClosed text) :
    EndsApart .outside false text := by
  obtain ⟨signal, inner, _, _, rfl⟩ := form
  rw [← List.cons_append, ← List.append_assoc] at closed ⊢
  exact endsApart_of_isClosed closed (by decide) (by decide)

/-- How the list of a call stands in it. -/
theorem CallText.exists_list
    {callee : Text}
    (word : callee.all isIdentifierChar = true)
    {pieces : List Text}
    {text : Text}
    (called : CallText callee pieces text) :
    ∃ head closing, text = head ++ (Text.joinWith [','] pieces ++ [closing]) ∧
      EndsApart .outside false head ∧ isClosingBracket closing = true := by
  obtain ⟨closed, gap, closing, spaces, closes, rfl⟩ := called
  refine ⟨(callee ++ gap) ++ ['('], closing, by simp, ?_, closes⟩
  refine endsApart_concat ?_ (by decide) (by decide)
  have calleeOutside := (through_word_and_spaces callee).1
  have gapOutside := (through_word_and_spaces gap).2
  rw [List.takeWhile_eq_self_iff.mpr (List.all_eq_true.mp word)] at calleeOutside
  rw [List.takeWhile_eq_self_iff.mpr (List.all_eq_true.mp spaces)] at gapOutside
  rw [Quoting.through_append, calleeOutside, gapOutside]

namespace ReplacesCalls

variable {rule later : UpliftRule} {callee laterCallee : String}
  {build laterBuild : List Text → Option Text}

/-- Replacing one call by a signal call makes no blank part of a word. -/
theorem blanksPartWords_replaced
    (replaces : ReplacesCalls rule callee build)
    (notSuspension : rule ≠ .suspension)
    {above old rest : Text}
    {pieces : List Text}
    {new : Text}
    (called : CallText callee.toList pieces old)
    (built : build (argumentsOf pieces) = some new)
    (blanksPart : BlanksPartWords (above ++ (old ++ rest))) :
    BlanksPartWords (above ++ (new ++ rest)) := by
  rw [blanksPartWords_append, blanksPartWords_append] at blanksPart ⊢
  obtain ⟨aboveParts, oldParts, restParts⟩ := blanksPart
  refine ⟨aboveParts, replaces.blanksPartWords notSuspension ?_ built, restParts⟩
  intro argument member
  obtain ⟨piece, isPiece, inPiece⟩ := subset_of_mem_argumentsOf member
  exact (oldParts.of_subset (called.subset piece isPiece)).of_subset inPiece

/-- Replacing calls by signal calls makes no blank part of a word. -/
theorem blanksPartWords_replaceCallsFrom
    (replaces : ReplacesCalls rule callee build)
    (notSuspension : rule ≠ .suspension)
    (limit rank : Nat)
    {code : Text}
    (blanksPart : BlanksPartWords code) :
    BlanksPartWords (replaceCallsFrom callee.toList build limit rank code).1 :=
  replaceCallsFrom_preserves replaces.calleeName BlanksPartWords
    (fun _ _ _ _ _ _ called built parts =>
      replaces.blanksPartWords_replaced notSuspension called built parts)
    limit rank blanksPart

/-- Replacing one call brings up no call of another name that can be replaced. -/
theorem spent_replaced
    (replaces : ReplacesCalls rule callee build)
    (notSuspension : rule ≠ .suspension)
    (laterReplaces : ReplacesCalls later laterCallee laterBuild)
    (plain : later = .disconnect ∨ later = .isConnected ∨ later = .emit)
    (other : rule ≠ later)
    {above old rest : Text}
    {pieces : List Text}
    {new : Text}
    (apart : EndsApart .outside false above)
    (called : CallText laterCallee.toList pieces old)
    (built : laterBuild (argumentsOf pieces) = some new)
    (spent : Spent callee.toList build (above ++ (old ++ rest)))
    (blanksPart : BlanksPartWords old) :
    Spent callee.toList build (above ++ (new ++ rest)) := by
  have laterNotSuspension : later ≠ .suspension := by
    rintro rfl
    simp at plain
  have argumentsClosed (argument : Text) (member : argument ∈ argumentsOf pieces) :
      IsClosed argument :=
    isClosed_of_mem_argumentsOf called.closed member
  have name := laterReplaces.calleeName
  have oldOperand : Operand old :=
    called.operand name.headed name.word
  have newOperand : Operand new :=
    laterReplaces.operand argumentsClosed built
  have form : IsSignalForm new :=
    laterReplaces.isSignalForm laterNotSuspension built
  obtain ⟨head, closing, shape, headApart, closes⟩ := called.exists_list name.word
  have oldApart : EndsApart .outside false old := by
    have closed := oldOperand.closed
    rw [shape, ← List.append_assoc] at closed ⊢
    obtain ⟨notWord, noQuote⟩ : isIdentifierChar closing = false ∧ isQuoteMark closing = false := by
      simp only [isClosingBracket, Bool.or_eq_true, beq_iff_eq] at closes
      rcases closes with (rfl | rfl) | rfl <;> decide
    exact endsApart_of_isClosed closed notWord noQuote
  have inPieces (argument : Text) (member : argument ∈ argumentsOf pieces) :
      SpentInside callee.toList build argument := by
    have layout : above ++ (old ++ rest) =
        (above ++ head) ++ (Text.joinWith [','] pieces ++ ([closing] ++ rest)) := by
      rw [shape]
      simp only [List.append_assoc]
    refine spentInside_of_mem_argumentsOf called.closed (apart.append headApart) ?_ (layout ▸ spent)
      member
    exact fun piece isPiece => blanksPart.of_subset (called.subset piece isPiece)
  unfold Spent at spent ⊢
  rw [callSites_append _ apart, callSites_append _ oldApart] at spent
  rw [callSites_append _ apart, callSites_append _ (form.endsApart newOperand.closed)]
  obtain ⟨spentAbove, spentBelow⟩ := List.forall_mem_append.mp spent
  refine List.forall_mem_append.mpr ⟨?_, List.forall_mem_append.mpr ⟨?_, ?_⟩⟩
  · exact unbuilt_of_swapped (replaces.steadfast_of_isSignalForm notSuspension form)
      (sitesAbove_swapped _ apart oldOperand newOperand rest) spentAbove
  · exact (replaces.assembled notSuspension laterReplaces plain other built).spent argumentsClosed
      inPieces rest
  · exact (List.forall_mem_append.mp spentBelow).2

/-- Replacing the calls of one name brings up no call of another that can be replaced. -/
theorem spent_replaceCallsFrom
    (replaces : ReplacesCalls rule callee build)
    (notSuspension : rule ≠ .suspension)
    (laterReplaces : ReplacesCalls later laterCallee laterBuild)
    (plain : later = .disconnect ∨ later = .isConnected ∨ later = .emit)
    (other : rule ≠ later)
    (limit rank : Nat)
    {code : Text}
    (spent : Spent callee.toList build code)
    (blanksPart : BlanksPartWords code) :
    Spent callee.toList build (replaceCallsFrom laterCallee.toList laterBuild limit rank code).1 := by
  have laterNotSuspension : later ≠ .suspension := by
    rintro rfl
    simp at plain
  have both : Spent callee.toList build
        (replaceCallsFrom laterCallee.toList laterBuild limit rank code).1 ∧
      BlanksPartWords (replaceCallsFrom laterCallee.toList laterBuild limit rank code).1 := by
    refine replaceCallsFrom_preserves laterReplaces.calleeName
      (fun code => Spent callee.toList build code ∧ BlanksPartWords code) ?_ limit rank
      ⟨spent, blanksPart⟩
    rintro above old rest pieces new apart called built ⟨stillSpent, stillParts⟩
    have oldParts : BlanksPartWords old := by
      rw [blanksPartWords_append, blanksPartWords_append] at stillParts
      exact stillParts.2.1
    exact ⟨replaces.spent_replaced notSuspension laterReplaces plain other apart called built
        stillSpent oldParts,
      laterReplaces.blanksPartWords_replaced laterNotSuspension called built stillParts⟩
  exact both.1

end ReplacesCalls

end ScriptUplift
