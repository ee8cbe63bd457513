import Mathlib.Data.List.Basic
import Mathlib.Tactic.Common
import ScriptUplift.Proofs.CommentBorder

namespace ScriptUplift

/-!
# The two readings of string literals

The scan of a line knows string literals with three marks.  The search for
words, brackets and commas does not: it takes two marks for an empty string and
goes on with the next one.  Both are outside of strings at the same places as
long as no mark stands alone in a string with three of the same kind.
-/

namespace Scanning

/-- What the search for words takes a scan for. -/
def quoting : Scanning → Quoting
  | .code | .comment | .behindMark _ false true | .behindMark _ true false =>
      .outside
  | .inside mark _ | .behindMark mark false false | .behindMark mark true true =>
      .inside mark
  | .escaped mark _ =>
      .escaped mark

/-- A character behind a lone mark in a string with three marks has to be another mark. -/
def pairs : Scanning → Char → Bool
  | .behindMark mark true false, character =>
      character == mark
  | _, _ =>
      true

/-- Whether no mark stands alone in a string with three marks of its kind. -/
def pairsMarks : Scanning → Text → Bool
  | _, [] =>
      true
  | scanning, character :: rest =>
      scanning.pairs character && pairsMarks (scanning.step character) rest

/-- Whether both readings agree on a text, which is code without a comment. -/
def isLegible : Scanning → Text → Bool
  | _, [] =>
      true
  | scanning, character :: rest =>
      scanning.pairs character && scanning.step character != .comment &&
        isLegible (scanning.step character) rest

theorem isLegible_cons
    {scanning : Scanning}
    {character : Char}
    {rest : Text} :
    scanning.isLegible (character :: rest) = true ↔
      scanning.pairs character = true ∧ scanning.step character ≠ .comment ∧
        (scanning.step character).isLegible rest = true := by
  simp [isLegible, and_assoc]

theorem isLegible_append
    {scanning : Scanning}
    {first second : Text} :
    scanning.isLegible (first ++ second) = true ↔
      scanning.isLegible first = true ∧ (scanning.through first).isLegible second = true := by
  induction first generalizing scanning with
  | nil =>
      simp [isLegible]
  | cons character rest inductionHypothesis =>
      rw [List.cons_append, isLegible_cons, isLegible_cons, inductionHypothesis, through_cons]
      simp only [and_assoc]

theorem pairsMarks_append
    {scanning : Scanning}
    {first second : Text} :
    scanning.pairsMarks (first ++ second) = true ↔
      scanning.pairsMarks first = true ∧ (scanning.through first).pairsMarks second = true := by
  induction first generalizing scanning with
  | nil =>
      simp [pairsMarks]
  | cons character rest inductionHypothesis =>
      simp [pairsMarks, inductionHypothesis, and_assoc]

/-- Nothing leads out of a comment. -/
theorem through_ofComment
    (text : Text) :
    Scanning.comment.through text = .comment := by
  induction text with
  | nil =>
      rfl
  | cons _ _ inductionHypothesis =>
      exact inductionHypothesis

theorem isLegible_of_pairsMarks
    {scanning : Scanning}
    {text : Text}
    (pairs : scanning.pairsMarks text = true)
    (notComment : scanning.through text ≠ .comment) :
    scanning.isLegible text = true := by
  induction text generalizing scanning with
  | nil =>
      rfl
  | cons character rest inductionHypothesis =>
      rw [pairsMarks, Bool.and_eq_true] at pairs
      refine isLegible_cons.mpr ⟨pairs.1, ?_, inductionHypothesis pairs.2 notComment⟩
      intro reached
      rw [through_cons, reached, through_ofComment] at notComment
      exact notComment rfl

theorem quoting_stepInCode
    {character : Char}
    (notComment : stepInCode character ≠ .comment) :
    (stepInCode character).quoting = Quoting.outside.step character := by
  unfold stepInCode at notComment ⊢
  split at notComment
  · exact absurd rfl notComment
  · rename_i noHash
    rw [if_neg noHash, Quoting.step]
    split <;> rfl

theorem quoting_stepInside
    (mark character : Char)
    (triple : Bool) :
    (stepInside mark triple character).quoting = (Quoting.inside mark).step character := by
  rw [stepInside, Quoting.step]
  split_ifs <;> rfl

/-- Both readings take the same step from where they agree. -/
theorem quoting_step
    {scanning : Scanning}
    (proper : scanning.IsProper)
    {character : Char}
    (pairs : scanning.pairs character = true)
    (notComment : scanning.step character ≠ .comment) :
    (scanning.step character).quoting = scanning.quoting.step character := by
  cases scanning with
  | code =>
      exact quoting_stepInCode notComment
  | comment =>
      exact absurd rfl notComment
  | inside mark triple =>
      exact quoting_stepInside mark character triple
  | escaped mark triple =>
      rfl
  | behindMark mark triple twice =>
      have notEscape : mark ≠ '\\' := ne_of_isQuoteMark proper rfl
      have closes : (Quoting.inside mark).step mark = .outside := by
        simp [Quoting.step, notEscape]
      have opens : Quoting.outside.step mark = .inside mark :=
        if_pos proper
      cases triple with
      | false =>
          cases twice with
          | false =>
              rw [step]
              split
              · rename_i same
                rw [same]
                exact closes.symm
              · exact quoting_stepInside mark character false
          | true =>
              rw [step] at notComment ⊢
              split at notComment
              · rename_i same
                rw [if_pos same, same]
                exact opens.symm
              · rename_i other
                rw [if_neg other]
                exact quoting_stepInCode notComment
      | true =>
          cases twice with
          | false =>
              -- Behind a lone mark the readings differ, unless another mark follows.
              obtain rfl : character = mark := beq_iff_eq.mp pairs
              rw [step, if_pos rfl]
              exact opens.symm
          | true =>
              rw [step]
              split
              · rename_i same
                rw [same]
                exact closes.symm
              · exact quoting_stepInside mark character true

theorem quoting_through
    {scanning : Scanning}
    (proper : scanning.IsProper)
    {text : Text}
    (legible : scanning.isLegible text = true) :
    (scanning.through text).quoting = scanning.quoting.through text := by
  induction text generalizing scanning with
  | nil =>
      rfl
  | cons character rest inductionHypothesis =>
      obtain ⟨pairs, notComment, below⟩ := isLegible_cons.mp legible
      rw [through_cons, inductionHypothesis (proper.step character) below,
        quoting_step proper pairs notComment]
      rfl

/-- Where the search for words reads a character outside of strings, so does the scan. -/
theorem settle_of_outside
    {scanning : Scanning}
    (proper : scanning.IsProper)
    {character : Char}
    (pairs : scanning.pairs character = true)
    (notComment : scanning.step character ≠ .comment)
    (noQuote : isQuoteMark character = false)
    (outside : scanning.quoting = .outside) :
    scanning.settle = .code := by
  rcases scanning with _ | _ | _ | _ | ⟨mark, triple | triple, twice | twice⟩
  · rfl
  · exact absurd rfl notComment
  · cases outside
  · cases outside
  · cases outside
  · rfl
  · obtain rfl : character = mark := beq_iff_eq.mp pairs
    have quote : isQuoteMark character = true := proper
    rw [quote] at noQuote
    cases noQuote
  · cases outside

/-- Where the scan is in code, the search for words is outside of strings. -/
theorem quoting_of_settle
    {scanning : Scanning}
    (inCode : scanning.settle = .code) :
    scanning.quoting = .outside := by
  rcases scanning with _ | _ | _ | _ | ⟨mark, triple | triple, twice | twice⟩ <;> first
    | rfl
    | cases inCode

theorem settle_of_isLegible
    {front rest : Text}
    {character : Char}
    (legible : Scanning.code.isLegible (front ++ character :: rest) = true)
    (outside : Quoting.outside.through front = .outside)
    (noQuote : isQuoteMark character = false) :
    (Scanning.code.through front).settle = .code := by
  have start : Scanning.code.IsProper :=
    trivial
  obtain ⟨above, below⟩ := isLegible_append.mp legible
  obtain ⟨pairs, notComment, _⟩ := isLegible_cons.mp below
  exact settle_of_outside (start.through front) pairs notComment noQuote
    ((quoting_through start above).trans outside)

end Scanning

/-- The character at an index stands outside of the string literals of a text. -/
def OutsideLiterals
    (text : Text)
    (index : Nat) :
    Prop :=
  (Scanning.code.through (text.take index)).settle = .code ∧
    ∃ character, text[index]? = some character ∧ isQuoteMark character = false

theorem outsideLiterals_of_isLegible
    {code : Text}
    (legible : Scanning.code.isLegible code = true)
    {index : Nat}
    (outside : Quoting.outside.through (code.take index) = .outside)
    {character : Char}
    (stands : code[index]? = some character)
    (noQuote : isQuoteMark character = false) :
    OutsideLiterals code index := by
  obtain ⟨inside, rfl⟩ := List.getElem?_eq_some_iff.mp stands
  have parts : code.take index ++ code[index] :: code.drop (index + 1) = code := by
    rw [List.cons_getElem_drop_succ, List.take_append_drop]
  rw [← parts] at legible
  exact ⟨Scanning.settle_of_isLegible legible outside noQuote, _, stands, noQuote⟩

theorem Quoting.getElem?_mask
    (quoting : Quoting)
    (text : Text)
    (index : Nat) :
    (quoting.mask text)[index]? =
      text[index]?.map (quoting.through (text.take index)).shown := by
  induction text generalizing quoting index with
  | nil =>
      rfl
  | cons character rest inductionHypothesis =>
      cases index with
      | zero =>
          rfl
      | succ index =>
          exact inductionHypothesis (quoting.step character) index

/-- What the search for words shows is what stands outside of the literals. -/
theorem outsideLiterals_iff
    {code : Text}
    (legible : Scanning.code.isLegible code = true)
    (index : Nat) :
    OutsideLiterals code index ↔
      ∃ character, (maskStrings code)[index]? = some character ∧ isQuoteMark character = false := by
  rw [← Quoting.mask_outside, Quoting.getElem?_mask]
  constructor
  · rintro ⟨inCode, character, stands, noQuote⟩
    have front : Scanning.code.isLegible (code.take index) = true := by
      rw [← List.take_append_drop index code] at legible
      exact (Scanning.isLegible_append.mp legible).1
    have start : Scanning.code.IsProper :=
      trivial
    have outside : Quoting.outside.through (code.take index) = .outside :=
      (Scanning.quoting_through start front).symm.trans (Scanning.quoting_of_settle inCode)
    refine ⟨character, ?_, noQuote⟩
    rw [stands, outside, Option.map_some, Quoting.shown, if_pos ⟨rfl, noQuote⟩]
  · rintro ⟨character, shown, noQuote⟩
    obtain ⟨original, stands, isShown⟩ := Option.map_eq_some_iff.mp shown
    unfold Quoting.shown at isShown
    split at isShown
    · rename_i visible
      exact outsideLiterals_of_isLegible legible visible.1 stands visible.2
    · subst isShown
      exact absurd noQuote (by decide)

/-- The code of a line is read alike if no mark stands alone in a string with three marks. -/
theorem isLegible_code
    {text : Text}
    (pairs : Scanning.code.pairsMarks text = true) :
    Scanning.code.isLegible (Scan.line none text).code = true := by
  have inCode : Scanning.code ≠ .comment := by
    simp
  obtain ⟨front, shape, notComment, _⟩ := Scanning.exists_commentOf inCode text
  have isCode : (Scan.line none text).code = front := by
    have parts := (Scan.code_append_comment none text).trans shape
    rw [Scanning.comment_eq] at parts
    exact List.append_cancel_right parts
  rw [isCode]
  rw [shape] at pairs
  exact Scanning.isLegible_of_pairsMarks (Scanning.pairsMarks_append.mp pairs).1 notComment

/-! ## Words and calls -/

/-- An identifier is a word at the end of code that ends apart. -/
theorem exists_word_of_mem_identifiers
    {code : Text}
    {token : Token}
    (member : token ∈ identifiers code) :
    ∃ above rest, code = above ++ (token.text ++ rest) ∧ token.start = above.length ∧
      Quoting.outside.through above = .outside ∧ token.text.all isIdentifierChar = true := by
  have isRun := List.mem_of_mem_filter member
  rw [← Quoting.mask_outside, wordRuns_mask, Nat.zero_add] at isRun
  obtain ⟨start, isStart, rfl⟩ := List.mem_map.mp isRun
  obtain ⟨above, rfl, apart⟩ := exists_above_of_mem_wordStarts isStart
  refine ⟨above, start.dropWhile isIdentifierChar, ?_, ?_, apart.outside, List.all_takeWhile⟩
  · exact congrArg (above ++ ·) List.takeWhile_append_dropWhile.symm
  · simp [wordAt]

/-- The letters of an identifier are read outside of strings. -/
theorem outside_of_mem_identifiers
    {code : Text}
    {token : Token}
    (member : token ∈ identifiers code)
    {index : Nat}
    (behind : token.start ≤ index)
    (before : index ≤ token.stop) :
    Quoting.outside.through (code.take index) = .outside := by
  obtain ⟨above, rest, rfl, startsAt, outside, letters⟩ := exists_word_of_mem_identifiers member
  rw [Token.stop, startsAt] at before
  rw [startsAt] at behind
  obtain ⟨offset, rfl⟩ := Nat.exists_eq_add_of_le behind
  have plain : (token.text.take offset).all isPlainChar = true :=
    List.all_eq_true.mpr fun character inWord => isPlainChar_of_isIdentifierChar
      (List.all_eq_true.mp letters character (List.mem_of_mem_take inWord))
  rw [List.take_length_add_append, List.take_append_of_le_length (by omega),
    Quoting.through_append, outside]
  exact (isClosed_of_plain plain).through_eq

theorem exists_letter_of_mem_identifiers
    {code : Text}
    {token : Token}
    (member : token ∈ identifiers code)
    {index : Nat}
    (behind : token.start ≤ index)
    (before : index < token.stop) :
    ∃ letter, code[index]? = some letter ∧ isQuoteMark letter = false := by
  obtain ⟨above, rest, rfl, startsAt, _, letters⟩ := exists_word_of_mem_identifiers member
  rw [Token.stop, startsAt] at before
  rw [startsAt] at behind
  obtain ⟨offset, rfl⟩ := Nat.exists_eq_add_of_le behind
  have within : offset < token.text.length :=
    Nat.add_lt_add_iff_left.mp before
  refine ⟨token.text[offset], ?_, ?_⟩
  · rw [List.getElem?_append_right (Nat.le_add_right _ _), Nat.add_sub_cancel_left,
      List.getElem?_append_left within, List.getElem?_eq_getElem within]
  · exact isQuoteMark_of_isIdentifierChar
      (List.all_eq_true.mp letters _ (List.getElem_mem within))

/-- A bracket that closes is found behind closed pieces, which are the arguments in between. -/
theorem exists_pieces_of_closingIndex
    {code : Text}
    {openAt closeAt : Nat}
    {bracket : Char}
    (opens : isOpeningBracket bracket = true)
    {body : Text}
    (opening : code.drop openAt = bracket :: body)
    (found : closingIndex code openAt = some closeAt) :
    ∃ pieces closing rest, (∀ piece ∈ pieces, IsClosed piece) ∧ isClosingBracket closing = true ∧
      body = Text.joinWith [','] pieces ++ closing :: rest ∧
      closeAt = openAt + 1 + (Text.joinWith [','] pieces).length ∧
      splitArguments (Text.joinWith [','] pieces) = argumentsOf pieces := by
  rw [Call.closingIndex_eq opens opening] at found
  obtain ⟨index, closes, rfl⟩ := Option.map_eq_some_iff.mp found
  have read := piecesRead .outside 0 body
  cases result : readPieces .outside 0 body with
  | none =>
      rw [result] at read
      have noBracket : closingIndexFrom 1 (Quoting.outside.mask body) = none := read
      rw [noBracket] at closes
      cases closes
  | some pair =>
      obtain ⟨pieces, rest⟩ := pair
      rw [result] at read
      obtain ⟨inner, last, shape, closesAt, cut⟩ := read
      have sameIndex : index = inner.length :=
        Option.some.inj (closes.symm.trans closesAt)
      obtain ⟨first, others, rfl, listRead⟩ := listRead_of_readPieces result
      obtain ⟨closing, isClosing, joined⟩ := listRead.shape
      obtain rfl : inner = Text.joinWith [','] (first :: others) := by
        have whole := shape.symm.trans joined
        have sameLength := congrArg List.length whole
        simp only [List.length_append, List.length_cons] at sameLength
        exact List.append_inj_left whole (by omega)
      refine ⟨first :: others, closing, rest, ?_, isClosing, joined, by omega, ?_⟩
      · exact List.forall_mem_cons.mpr ⟨listRead.firstWalk, listRead.othersClosed⟩
      · exact (splitArguments_eq _).trans (congrArg argumentsOf cut)

/-- What stands behind a place, up to another one, decides what is open there. -/
theorem through_take_add
    {code : Text}
    {first : Nat}
    {between rest : Text}
    (outside : Quoting.outside.through (code.take first) = .outside)
    (below : code.drop first = between ++ rest)
    (closed : Quoting.outside.through between = .outside) :
    Quoting.outside.through (code.take (first + between.length)) = .outside := by
  rw [List.take_add, below, List.take_left, Quoting.through_append, outside]
  exact closed

/-- The brackets of a call are read outside of strings. -/
theorem outside_of_ofToken?
    {code : Text}
    {token : Token}
    (member : token ∈ identifiers code)
    {call : Call}
    (found : Call.ofToken? code token = some call) :
    (Quoting.outside.through (code.take call.openAt) = .outside ∧ code[call.openAt]? = some '(') ∧
      Quoting.outside.through (code.take call.closeAt) = .outside ∧
        ∃ closing, code[call.closeAt]? = some closing ∧ isClosingBracket closing = true := by
  unfold Call.ofToken? at found
  dsimp only at found
  have atWord := outside_of_mem_identifiers member (Nat.le_add_right _ _) (Nat.le_refl token.stop)
  have spaces : ((code.drop token.stop).takeWhile (· == ' ')).all isPlainChar = true := by
    refine List.all_eq_true.mpr fun character inGap => ?_
    obtain rfl : character = ' ' := by
      simpa using List.mem_takeWhile_imp inGap
    decide
  obtain ⟨openAt, isOpenAt⟩ : ∃ openAt,
      openAt = token.stop + ((code.drop token.stop).takeWhile (· == ' ')).length :=
    ⟨_, rfl⟩
  have atBracket : Quoting.outside.through (code.take openAt) = .outside := by
    rw [isOpenAt]
    exact through_take_add atWord List.takeWhile_append_dropWhile.symm
      (isClosed_of_plain spaces).through_eq
  rw [← isOpenAt] at found
  split at found
  · rename_i opening
    obtain ⟨closeAt, closes, rfl⟩ := Option.map_eq_some_iff.mp found
    obtain ⟨body, isOpening⟩ := List.head?_eq_some_iff.mp opening
    obtain ⟨pieces, closing, rest, closed, isClosing, rfl, rfl, _⟩ :=
      exists_pieces_of_closingIndex (by decide) isOpening closes
    have listText : code.drop openAt =
        ('(' :: Text.joinWith [','] pieces) ++ closing :: rest :=
      isOpening
    have listClosed : Quoting.outside.through ('(' :: Text.joinWith [','] pieces) = .outside :=
      through_of_walk (walk_joinWith rfl closed : walk .outside 1 _ = _)
    have atClosing := through_take_add atBracket listText listClosed
    have closingAt : openAt + ('(' :: Text.joinWith [','] pieces).length =
        openAt + 1 + (Text.joinWith [','] pieces).length := by
      rw [List.length_cons]
      omega
    rw [closingAt] at atClosing
    refine ⟨⟨atBracket, ?_⟩, atClosing, closing, ?_, isClosing⟩
    · rw [← Nat.add_zero openAt, ← List.getElem?_drop, isOpening]
      rfl
    · rw [← closingAt, ← List.getElem?_drop, listText, List.getElem?_append_right (Nat.le_refl _),
        Nat.sub_self]
      rfl
  · cases found

/--
Where both readings agree, the letters of an identifier stand outside of the
string literals of the code.
-/
theorem identifier_outsideLiterals
    {code : Text}
    (legible : Scanning.code.isLegible code = true)
    {token : Token}
    (member : token ∈ identifiers code)
    {index : Nat}
    (behind : token.start ≤ index)
    (before : index < token.stop) :
    OutsideLiterals code index := by
  obtain ⟨letter, stands, noQuote⟩ := exists_letter_of_mem_identifiers member behind before
  exact outsideLiterals_of_isLegible legible
    (outside_of_mem_identifiers member behind before.le) stands noQuote

/-- Where both readings agree, a call stands outside of the string literals of the code. -/
theorem call_outsideLiterals
    {code : Text}
    (legible : Scanning.code.isLegible code = true)
    {callee? : Text → Bool}
    {call : Call}
    (member : call ∈ Call.findAll callee? code) :
    (∀ index, call.start ≤ index → index < call.start + call.name.length →
        OutsideLiterals code index) ∧
      OutsideLiterals code call.openAt ∧ OutsideLiterals code call.closeAt := by
  obtain ⟨token, isToken, found⟩ := List.mem_filterMap.mp member
  have isIdentifier := List.mem_of_mem_filter isToken
  obtain ⟨sameName, sameStart, _⟩ := Call.placed_of_ofToken? found
  obtain ⟨⟨atBracket, opening⟩, atClosing, closing, isClosing, closes⟩ :=
    outside_of_ofToken? isIdentifier found
  refine ⟨fun index behind before => ?_, ?_, ?_⟩
  · rw [sameStart] at behind
    rw [sameStart, sameName] at before
    exact identifier_outsideLiterals legible isIdentifier behind before
  · exact outsideLiterals_of_isLegible legible atBracket opening (by decide)
  · refine outsideLiterals_of_isLegible legible atClosing isClosing ?_
    simp only [isClosingBracket, Bool.or_eq_true, beq_iff_eq] at closes
    rcases closes with (rfl | rfl) | rfl <;> decide

end ScriptUplift
