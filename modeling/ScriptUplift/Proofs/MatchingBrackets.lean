import Mathlib.Data.Nat.Find
import Mathlib.Order.Bounds.Basic
import Mathlib.Tactic.Common
import ScriptUplift.Proofs.BracketNesting

namespace ScriptUplift

/-!
# The bracket that closes another one

The search for a closing bracket keeps a number and no kinds.  That is enough:
over a text whose strings are closed and whose brackets nest, the number comes
back to where it was and is never smaller on the way, so that the bracket behind
such a text is the one that is found.  On any other code the search still stops
where the brackets outside of strings balance for the first time.
-/

namespace Text

theorem byteSize_append
    (first second : Text) :
    byteSize (first ++ second) = byteSize first + byteSize second := by
  induction first with
  | nil =>
      exact (Nat.zero_add _).symm
  | cons character rest inductionHypothesis =>
      exact (congrArg (character.utf8Size + ·) inductionHypothesis).trans (Nat.add_assoc _ _ _).symm

/-- The text behind a front begins at the byte at which the front ends. -/
theorem indexOfByte_append
    (front rest : Text) :
    indexOfByte (front ++ rest) front.byteSize = front.length := by
  induction front with
  | nil =>
      cases rest <;> rfl
  | cons character others inductionHypothesis =>
      have size : byteSize (character :: others) = character.utf8Size + byteSize others :=
        rfl
      have wide := Char.utf8Size_pos character
      have some : byteSize (character :: others) ≠ 0 := by
        omega
      rw [List.cons_append, indexOfByte, if_neg some, size, Nat.add_sub_cancel_left,
        inductionHypothesis, List.length_cons]

theorem byteOffset_append
    (front rest : Text) :
    byteOffset (front ++ rest) front.length = front.byteSize := by
  rw [byteOffset, List.take_left]

end Text

theorem Quoting.mask_append
    (quoting : Quoting)
    (first second : Text) :
    quoting.mask (first ++ second) =
      quoting.mask first ++ (quoting.through first).mask second := by
  induction first generalizing quoting with
  | nil =>
      rfl
  | cons character rest inductionHypothesis =>
      exact congrArg (quoting.shown character :: ·) (inductionHypothesis _)

theorem Quoting.take_mask
    (quoting : Quoting)
    (text : Text)
    (count : Nat) :
    (quoting.mask text).take count = quoting.mask (text.take count) := by
  induction text generalizing quoting count with
  | nil =>
      simp [mask]
  | cons character rest inductionHypothesis =>
      cases count with
      | zero =>
          rfl
      | succ count =>
          exact congrArg (quoting.shown character :: ·) (inductionHypothesis _ count)

/-- Behind a text that ends outside of strings, strings are read as from the start. -/
theorem Quoting.drop_mask
    {code : Text}
    {index : Nat}
    (outside : Quoting.outside.through (code.take index) = .outside) :
    (Quoting.outside.mask code).drop index = Quoting.outside.mask (code.drop index) := by
  by_cases within : index ≤ code.length
  · have whole : Quoting.outside.mask code =
        Quoting.outside.mask (code.take index) ++ Quoting.outside.mask (code.drop index) := by
      conv_lhs => rw [← List.take_append_drop index code, mask_append, outside]
    rw [whole, List.drop_left']
    simpa using within
  · have beyond : code.length ≤ index := by
      omega
    rw [List.drop_of_length_le beyond, List.drop_of_length_le (by simpa using beyond)]
    rfl

/-! ## Balanced texts -/

/-- What stands between the marks of a string: a mark or a backslash behind a backslash only. -/
inductive IsLiteralBody (mark : Char) : Text → Prop
  | nil :
      IsLiteralBody mark []
  | plain {character : Char} {rest : Text} :
      character ≠ mark →
      character ≠ '\\' →
      IsLiteralBody mark rest →
      IsLiteralBody mark (character :: rest)
  | escaped {character : Char} {rest : Text} :
      IsLiteralBody mark rest →
      IsLiteralBody mark ('\\' :: character :: rest)

/-- A text of ordinary characters, closed strings, and pairs of brackets around such texts. -/
inductive IsBalanced : Text → Prop
  | nil :
      IsBalanced []
  | ordinary {character : Char} {rest : Text} :
      isQuoteMark character = false →
      isOpeningBracket character = false →
      isClosingBracket character = false →
      IsBalanced rest →
      IsBalanced (character :: rest)
  | literal {mark : Char} {body rest : Text} :
      isQuoteMark mark = true →
      IsLiteralBody mark body →
      IsBalanced rest →
      IsBalanced (mark :: (body ++ mark :: rest))
  | bracketed {opening : Char} {inner rest : Text} :
      isOpeningBracket opening = true →
      IsBalanced inner →
      IsBalanced rest →
      IsBalanced (opening :: (inner ++ closingOf opening :: rest))

/-- No bracket is a quotation mark. -/
theorem isQuoteMark_of_bracket
    {character : Char}
    (bracket : isOpeningBracket character = true ∨ isClosingBracket character = true) :
    isQuoteMark character = false := by
  simp only [isOpeningBracket, isClosingBracket, Bool.or_eq_true, beq_iff_eq] at bracket
  rcases bracket with ((rfl | rfl) | rfl) | ((rfl | rfl) | rfl) <;> decide

theorem isClosingBracket_of_isOpeningBracket
    {character : Char}
    (opens : isOpeningBracket character = true) :
    isClosingBracket character = false := by
  simp only [isOpeningBracket, Bool.or_eq_true, beq_iff_eq] at opens
  rcases opens with (rfl | rfl) | rfl <;> decide

theorem isOpeningBracket_of_isClosingBracket
    {character : Char}
    (closes : isClosingBracket character = true) :
    isOpeningBracket character = false := by
  rw [Bool.eq_false_iff]
  intro opens
  exact absurd (isClosingBracket_of_isOpeningBracket opens) (by simp [closes])

theorem isClosingBracket_closingOf
    {opening : Char}
    (opens : isOpeningBracket opening = true) :
    isClosingBracket (closingOf opening) = true := by
  simp only [isOpeningBracket, Bool.or_eq_true, beq_iff_eq] at opens
  rcases opens with (rfl | rfl) | rfl <;> decide

theorem bracketStep_of_isClosingBracket
    {character : Char}
    (closes : isClosingBracket character = true) :
    bracketStep character = -1 := by
  simp only [isClosingBracket, Bool.or_eq_true, beq_iff_eq] at closes
  rcases closes with (rfl | rfl) | rfl <;> decide

/--
A text outside of strings is passed on the way to the bracket that brings the
depth to zero: the search goes on behind it at the next depth.
-/
def ReadsPast
    (depth : Int)
    (text : Text)
    (next : Int) :
    Prop :=
  ∀ rest,
    closingIndexFrom depth (Quoting.outside.mask (text ++ rest)) =
      (closingIndexFrom next (Quoting.outside.mask rest)).map (· + text.length)

namespace ReadsPast

theorem nil
    (depth : Int) :
    ReadsPast depth [] depth :=
  fun _ => Option.map_id'.symm

theorem append
    {depth between next : Int}
    {first second : Text}
    (firstPast : ReadsPast depth first between)
    (secondPast : ReadsPast between second next) :
    ReadsPast depth (first ++ second) next := by
  intro rest
  have sum : ((· + first.length) ∘ (· + second.length) : Nat → Nat) =
      (· + (first ++ second).length) := by
    funext index
    simp only [Function.comp_apply, List.length_append]
    omega
  rw [List.append_assoc, firstPast, secondPast, Option.map_map, sum]

/-- A character outside of strings is passed unless it is the closing bracket searched for. -/
theorem character
    {depth : Int}
    {character : Char}
    (noQuote : isQuoteMark character = false)
    (goesOn : isClosingBracket character = true → depth ≠ 1) :
    ReadsPast depth [character] (depth + bracketStep character) := by
  intro rest
  have shown : Quoting.outside.shown character = character :=
    if_pos ⟨rfl, noQuote⟩
  have step : Quoting.outside.step character = .outside :=
    if_neg (by simp [noQuote])
  rw [List.singleton_append, Quoting.mask, shown, step, closingIndexFrom_cons goesOn]
  rfl

end ReadsPast

/-- What is shown of the rest of a string is passed on the way to a bracket. -/
theorem IsLiteralBody.closingIndexFrom_append
    {mark : Char}
    (notEscape : mark ≠ '\\')
    {body : Text}
    (literal : IsLiteralBody mark body)
    (depth : Int)
    (rest : Text) :
    closingIndexFrom depth ((Quoting.inside mark).mask (body ++ mark :: rest)) =
      (closingIndexFrom depth (Quoting.outside.mask rest)).map (· + (body.length + 1)) := by
  have quote (shown : Text) :
      closingIndexFrom depth ('"' :: shown) = (closingIndexFrom depth shown).map (· + 1) := by
    simp [closingIndexFrom, isOpeningBracket, isClosingBracket]
  have hidden (character : Char) : (Quoting.inside mark).shown character = '"' :=
    if_neg fun visible => Quoting.noConfusion visible.1
  have hiddenEscaped (character : Char) : (Quoting.escaped mark).shown character = '"' :=
    if_neg fun visible => Quoting.noConfusion visible.1
  induction literal with
  | nil =>
      simp only [List.nil_append, Quoting.mask, hidden, Quoting.step, if_neg notEscape, if_true, quote]
      rfl
  | plain notMark noEscape _ inductionHypothesis =>
      simp only [List.cons_append, Quoting.mask, hidden, Quoting.step, if_neg noEscape,
        if_neg notMark, quote, inductionHypothesis, Option.map_map]
      rfl
  | escaped _ inductionHypothesis =>
      simp only [List.cons_append, Quoting.mask, hidden, hiddenEscaped, Quoting.step, if_true, quote,
        inductionHypothesis, Option.map_map]
      rfl

theorem readsPast_literal
    {mark : Char}
    (quote : isQuoteMark mark = true)
    {body : Text}
    (literal : IsLiteralBody mark body)
    (depth : Int) :
    ReadsPast depth (mark :: (body ++ [mark])) depth := by
  intro rest
  have notEscape : mark ≠ '\\' := by
    rintro rfl
    cases quote
  have shape : mark :: (body ++ [mark]) ++ rest = mark :: (body ++ mark :: rest) := by
    simp
  have step : Quoting.outside.step mark = .inside mark :=
    if_pos quote
  have shown : Quoting.outside.shown mark = '"' :=
    if_neg (by simp [quote])
  have opened : isClosingBracket '"' = true → depth ≠ 1 :=
    fun closes => absurd closes (by decide)
  rw [shape, Quoting.mask, shown, step, closingIndexFrom_cons opened,
    (show bracketStep '"' = 0 from rfl), Int.add_zero, literal.closingIndexFrom_append notEscape,
    Option.map_map]
  simp only [List.length_cons, List.length_append, List.length_nil]
  rfl

/-- A balanced text is passed on the way to the bracket that closes what is open before it. -/
theorem IsBalanced.readsPast
    {body : Text}
    (balanced : IsBalanced body)
    {depth : Int}
    (inside : 1 ≤ depth) :
    ReadsPast depth body depth := by
  induction balanced generalizing depth with
  | nil =>
      exact .nil depth
  | @ordinary character others noQuote noOpening noClosing _ inductionHypothesis =>
      have own : ReadsPast depth [character] (depth + bracketStep character) :=
        .character noQuote fun closes => absurd (noClosing.symm.trans closes) Bool.false_ne_true
      have flat : bracketStep character = 0 := by
        simp [bracketStep, noOpening, noClosing]
      rw [flat, Int.add_zero] at own
      exact own.append (inductionHypothesis inside)
  | @literal mark body others quote literal _ inductionHypothesis =>
      have shape : mark :: (body ++ mark :: others) = mark :: (body ++ [mark]) ++ others := by
        simp
      rw [shape]
      exact (readsPast_literal quote literal depth).append (inductionHypothesis inside)
  | @bracketed opening inner others opens _ _ innerHypothesis othersHypothesis =>
      have closes := isClosingBracket_closingOf opens
      have noClosing := isClosingBracket_of_isOpeningBracket opens
      have entered : ReadsPast depth [opening] (depth + 1) := by
        have deeper : bracketStep opening = 1 :=
          if_pos opens
        rw [← deeper]
        exact .character (isQuoteMark_of_bracket (.inl opens)) fun closes =>
          absurd (noClosing.symm.trans closes) Bool.false_ne_true
      -- Inside of the pair the depth is two at least, so that its own bracket does not end the search.
      have left : ReadsPast (depth + 1) [closingOf opening] depth := by
        have own : ReadsPast (depth + 1) [closingOf opening]
            (depth + 1 + bracketStep (closingOf opening)) :=
          .character (isQuoteMark_of_bracket (.inr closes)) fun _ => by omega
        rwa [bracketStep_of_isClosingBracket closes, Int.add_neg_cancel_right] at own
      exact entered.append ((innerHypothesis (by omega)).append (left.append (othersHypothesis inside)))

/-! ## The first balance -/

/-- The brackets that a text opens less those that it closes. -/
def bracketSurplus
    (shown : Text) :
    Int :=
  (shown.countP isOpeningBracket : Int) - shown.countP isClosingBracket

theorem bracketSurplus_cons
    (character : Char)
    (rest : Text) :
    bracketSurplus (character :: rest) = bracketStep character + bracketSurplus rest := by
  unfold bracketSurplus bracketStep
  rw [List.countP_cons, List.countP_cons]
  by_cases opens : isOpeningBracket character = true
  · have noClosing := isClosingBracket_of_isOpeningBracket opens
    simp only [opens, noClosing, if_true, Bool.false_eq_true, if_false]
    omega
  · rw [if_neg opens, if_neg opens]
    by_cases closes : isClosingBracket character = true
    · rw [if_pos closes, if_pos closes]
      omega
    · rw [if_neg closes, if_neg closes]
      omega

/-- At an index of a text all brackets that were open before it, and in it, are closed. -/
def ClosesAt
    (depth : Int)
    (shown : Text)
    (index : Nat) :
    Prop :=
  index < shown.length ∧ depth + bracketSurplus (shown.take (index + 1)) = 0

theorem closesAt_succ
    (depth : Int)
    (character : Char)
    (rest : Text)
    (index : Nat) :
    ClosesAt depth (character :: rest) (index + 1) ↔
      ClosesAt (depth + bracketStep character) rest index := by
  unfold ClosesAt
  rw [List.take_succ_cons, bracketSurplus_cons, List.length_cons, Int.add_assoc,
    Nat.add_lt_add_iff_right]

theorem closesAt_zero
    {depth : Int}
    (inside : 1 ≤ depth)
    (character : Char)
    (rest : Text) :
    ClosesAt depth (character :: rest) 0 ↔ depth = 1 ∧ isClosingBracket character = true := by
  have first : bracketSurplus ((character :: rest).take 1) = bracketStep character := by
    rw [List.take_succ_cons, bracketSurplus_cons]
    exact Int.add_zero _
  unfold ClosesAt
  rw [first]
  by_cases closes : isClosingBracket character = true
  · rw [bracketStep_of_isClosingBracket closes]
    simp only [List.length_cons, closes, and_true]
    omega
  · have notLower : 0 ≤ bracketStep character := by
      rw [bracketStep, if_neg closes]
      split <;> decide
    refine iff_of_false ?_ fun isLast => closes isLast.2
    rintro ⟨_, balanced⟩
    omega

/-- The search stops where all brackets are closed for the first time. -/
theorem closingIndexFrom_eq_some_iff
    {depth : Int}
    (inside : 1 ≤ depth)
    {shown : Text}
    {index : Nat} :
    closingIndexFrom depth shown = some index ↔ IsLeast {later | ClosesAt depth shown later} index := by
  induction shown generalizing depth index with
  | nil =>
      constructor
      · intro found
        cases found
      · intro least
        exact absurd least.1.1 (Nat.not_lt_zero _)
  | cons character rest inductionHypothesis =>
      have first := closesAt_zero inside character rest
      by_cases last : depth = 1 ∧ isClosingBracket character = true
      · have found : closingIndexFrom depth (character :: rest) = some 0 := by
          have noOpening := isOpeningBracket_of_isClosingBracket last.2
          simp [closingIndexFrom, noOpening, last]
        have here : ClosesAt depth (character :: rest) 0 :=
          first.mpr last
        rw [found]
        constructor
        · rintro ⟨⟩
          exact ⟨here, fun _ _ => Nat.zero_le _⟩
        · intro least
          exact congrArg some (Nat.le_zero.mp (least.2 here)).symm
      · have notHere : ¬ClosesAt depth (character :: rest) 0 :=
          fun closes => last (first.mp closes)
        have goesOn : isClosingBracket character = true → depth ≠ 1 :=
          fun closes isLast => last ⟨isLast, closes⟩
        have insideBelow : 1 ≤ depth + bracketStep character := by
          unfold bracketStep
          split
          · omega
          · split
            · rename_i closes
              have notLast := goesOn closes
              omega
            · omega
        rw [closingIndexFrom_cons goesOn, Option.map_eq_some_iff]
        constructor
        · rintro ⟨below, found, rfl⟩
          have least := (inductionHypothesis insideBelow).mp found
          refine ⟨(closesAt_succ _ _ _ _).mpr least.1, fun later closes => ?_⟩
          cases later with
          | zero =>
              exact absurd closes notHere
          | succ later =>
              exact Nat.succ_le_succ (least.2 ((closesAt_succ _ _ _ _).mp closes))
        · intro least
          cases index with
          | zero =>
              exact absurd least.1 notHere
          | succ below =>
              refine ⟨below, (inductionHypothesis insideBelow).mpr ⟨?_, fun later closes => ?_⟩, rfl⟩
              · exact (closesAt_succ _ _ _ _).mp least.1
              · exact Nat.le_of_succ_le_succ (least.2 ((closesAt_succ _ _ _ _).mpr closes))

/--
From one index of a code to another one, both included, as many brackets are
opened as closed outside of the strings that begin there.
-/
def BalancesBetween
    (code : Text)
    (first last : Nat) :
    Prop :=
  let shown := Quoting.outside.mask ((code.take (last + 1)).drop first)
  shown.countP isOpeningBracket = shown.countP isClosingBracket

/-- Behind an opening bracket the code balances where a search that counts it stops. -/
theorem balancesBetween_iff
    {code : Text}
    {openAt : Nat}
    {bracket : Char}
    {body : Text}
    (opening : code.drop openAt = bracket :: body)
    (opens : isOpeningBracket bracket = true)
    (index : Nat) :
    (index + (openAt + 1) < code.length ∧ BalancesBetween code openAt (index + (openAt + 1))) ↔
      ClosesAt 1 (Quoting.outside.mask body) index := by
  have noQuote := isQuoteMark_of_bracket (.inl opens)
  have shown : Quoting.outside.shown bracket = bracket :=
    if_pos ⟨rfl, noQuote⟩
  have step : Quoting.outside.step bracket = .outside :=
    if_neg (by simp [noQuote])
  have length : code.length = openAt + (body.length + 1) := by
    have behind := congrArg List.length opening
    rw [List.length_drop, List.length_cons] at behind
    omega
  have stretch : (code.take (index + (openAt + 1) + 1)).drop openAt = bracket :: body.take (index + 1) := by
    have count : index + (openAt + 1) + 1 - openAt = index + 1 + 1 := by
      omega
    rw [List.drop_take, opening, count, List.take_succ_cons]
  have surplus : bracketSurplus (Quoting.outside.mask (bracket :: body.take (index + 1))) =
      1 + bracketSurplus ((Quoting.outside.mask body).take (index + 1)) := by
    have deeper : bracketStep bracket = 1 :=
      if_pos opens
    rw [Quoting.mask, shown, step, bracketSurplus_cons, deeper, Quoting.take_mask]
  unfold BalancesBetween ClosesAt
  rw [stretch, ← surplus, Quoting.length_mask, length]
  unfold bracketSurplus
  dsimp only
  omega

/-- Behind a balanced text the search finds the bracket that belongs to the one before the text. -/
theorem closingIndex_of_isBalanced
    (above below : Text)
    {opening : Char}
    (opens : isOpeningBracket opening = true)
    {body : Text}
    (balanced : IsBalanced body) :
    closingIndex (above ++ opening :: (body ++ closingOf opening :: below)) above.length =
      some (above.length + 1 + body.length) := by
  have closes := isClosingBracket_closingOf opens
  have shown : Quoting.outside.shown (closingOf opening) = closingOf opening :=
    if_pos ⟨rfl, isQuoteMark_of_bracket (.inr closes)⟩
  have noOpening := isOpeningBracket_of_isClosingBracket closes
  have last : closingIndexFrom 1 (Quoting.outside.mask (closingOf opening :: below)) = some 0 := by
    simp [Quoting.mask, shown, closingIndexFrom, noOpening, closes]
  rw [Call.closingIndex_eq opens List.drop_left, balanced.readsPast (by decide), last]
  simp only [Option.map_some, Nat.zero_add, Option.some.injEq]
  omega

/-- The same, told by the bytes of the texts. -/
theorem closingIndex_indexOfByte_of_isBalanced
    (above below : Text)
    {opening : Char}
    (opens : isOpeningBracket opening = true)
    {body : Text}
    (balanced : IsBalanced body) :
    let code := above ++ opening :: (body ++ closingOf opening :: below)
    (closingIndex code (code.indexOfByte above.byteSize)).map code.byteOffset =
      some (above.byteSize + 1 + body.byteSize) := by
  intro code
  have narrow : opening.utf8Size = 1 := by
    simp only [isOpeningBracket, Bool.or_eq_true, beq_iff_eq] at opens
    rcases opens with (rfl | rfl) | rfl <;> rfl
  have front : code = (above ++ opening :: body) ++ closingOf opening :: below := by
    simp [code]
  have frontLength : above.length + 1 + body.length = (above ++ opening :: body).length := by
    simp only [List.length_append, List.length_cons]
    omega
  have frontSize : (above ++ opening :: body).byteSize = above.byteSize + 1 + body.byteSize := by
    have own : Text.byteSize (opening :: body) = opening.utf8Size + body.byteSize :=
      rfl
    rw [Text.byteSize_append, own, narrow, Nat.add_assoc]
  have start : code.indexOfByte above.byteSize = above.length :=
    Text.indexOfByte_append above _
  have found : closingIndex code above.length = some (above.length + 1 + body.length) :=
    closingIndex_of_isBalanced above below opens balanced
  rw [start, found, Option.map_some, frontLength, front, Text.byteOffset_append, frontSize]

/-- The places behind an index of a code at which the code balances. -/
def balancesBehind
    (code : Text)
    (openAt : Nat) :
    Set Nat :=
  {later | openAt < later ∧ later < code.length ∧ BalancesBetween code openAt later}

/-- On any code the search stops at the first place at which the code balances. -/
theorem closingIndex_eq_some_iff
    {code : Text}
    {openAt : Nat}
    {bracket : Char}
    {body : Text}
    (opening : code.drop openAt = bracket :: body)
    (opens : isOpeningBracket bracket = true)
    {index : Nat} :
    closingIndex code openAt = some index ↔ IsLeast (balancesBehind code openAt) index := by
  have balances := balancesBetween_iff opening opens
  rw [Call.closingIndex_eq opens opening, Option.map_eq_some_iff]
  constructor
  · rintro ⟨below, found, rfl⟩
    have isLeast := (closingIndexFrom_eq_some_iff (by decide)).mp found
    refine ⟨⟨by omega, (balances below).mpr isLeast.1⟩, fun later isLater => ?_⟩
    obtain ⟨behind, closes⟩ := isLater
    obtain ⟨other, rfl⟩ : ∃ other, later = other + (openAt + 1) :=
      ⟨later - (openAt + 1), by omega⟩
    exact Nat.add_le_add_right (isLeast.2 ((balances other).mp closes)) _
  · rintro ⟨⟨behind, closes⟩, lower⟩
    obtain ⟨below, rfl⟩ : ∃ below, index = below + (openAt + 1) :=
      ⟨index - (openAt + 1), by omega⟩
    refine ⟨below, (closingIndexFrom_eq_some_iff (by decide)).mpr ⟨?_, fun later isLater => ?_⟩, rfl⟩
    · exact (balances below).mp closes
    · have above := lower ⟨by omega, (balances later).mpr isLater⟩
      omega

/-- The search finds nothing if the code balances nowhere behind the bracket. -/
theorem closingIndex_eq_none_iff
    {code : Text}
    {openAt : Nat}
    {bracket : Char}
    {body : Text}
    (opening : code.drop openAt = bracket :: body)
    (opens : isOpeningBracket bracket = true) :
    closingIndex code openAt = none ↔ balancesBehind code openAt = ∅ := by
  have stops (index : Nat) :
      closingIndex code openAt = some index ↔ IsLeast (balancesBehind code openAt) index :=
    closingIndex_eq_some_iff opening opens
  rw [Set.eq_empty_iff_forall_notMem]
  constructor
  · intro missing later isLater
    classical
    have some : ∃ later, later ∈ balancesBehind code openAt :=
      ⟨later, isLater⟩
    have first : IsLeast (balancesBehind code openAt) (Nat.find some) :=
      ⟨Nat.find_spec some, fun _ isPlace => Nat.find_min' some isPlace⟩
    cases missing.symm.trans ((stops _).mpr first)
  · intro noPlace
    cases found : closingIndex code openAt with
    | none =>
        rfl
    | some index =>
        exact absurd ((stops index).mp found).1 (noPlace index)

/--
The closing bracket that belongs to an opening one is found: behind any text that
is balanced, whatever stands around, and told by characters or by bytes.  On any
code the search tells the first place behind an opening bracket at which as many
brackets are closed as opened outside of strings, and nothing if there is no such
place.  The strings are those of the whole code if the bracket is in none.
-/
theorem closing_bracket_is_first_balance :
    (∀ (above : Text) (opening : Char) (body below : Text),
      isOpeningBracket opening = true →
      IsBalanced body →
      let code := above ++ opening :: (body ++ closingOf opening :: below)
      closingIndex code above.length = some (above.length + 1 + body.length) ∧
        (closingIndex code (code.indexOfByte above.byteSize)).map code.byteOffset =
          some (above.byteSize + 1 + body.byteSize)) ∧
    ∀ (code : Text) (openAt : Nat) (bracket : Char),
      code[openAt]? = some bracket →
      isOpeningBracket bracket = true →
      (∀ index,
        closingIndex code openAt = some index ↔ IsLeast (balancesBehind code openAt) index) ∧
      (closingIndex code openAt = none ↔ balancesBehind code openAt = ∅) ∧
      (Quoting.outside.through (code.take openAt) = .outside →
        (Quoting.outside.mask code).drop openAt = Quoting.outside.mask (code.drop openAt)) := by
  constructor
  · intro above opening body below opens balanced code
    exact ⟨closingIndex_of_isBalanced above below opens balanced,
      closingIndex_indexOfByte_of_isBalanced above below opens balanced⟩
  · intro code openAt bracket stands opens
    obtain ⟨within, isBracket⟩ := List.getElem?_eq_some_iff.mp stands
    have opening : code.drop openAt = bracket :: code.drop (openAt + 1) := by
      rw [← isBracket, List.cons_getElem_drop_succ]
    exact ⟨fun _ => closingIndex_eq_some_iff opening opens, closingIndex_eq_none_iff opening opens,
      Quoting.drop_mask⟩

/-- A bracket in a string, behind an escaped mark, closes nothing. -/
theorem closing_bracket_behind_string :
    let code : Text := "f([a], \"\\\")\") + (1)".toList
    isOpeningBracket '(' = true ∧
      IsBalanced "[a], \"\\\")\"".toList ∧
      code[1]? = some '(' ∧
      Quoting.outside.through (code.take 1) = .outside ∧
      closingIndex code 1 = some 12 ∧
      IsLeast (balancesBehind code 1) 12 ∧
      (Quoting.outside.mask code).drop 1 = Quoting.outside.mask (code.drop 1) := by
  intro code
  have balanced : IsBalanced "[a], \"\\\")\"".toList := by
    have body : IsLiteralBody '"' "\\\")".toList :=
      .escaped (.plain (by decide) (by decide) .nil)
    have bracketed : IsBalanced ('[' :: (['a'] ++ closingOf '[' :: ", \"\\\")\"".toList)) :=
      .bracketed rfl (.ordinary rfl rfl rfl .nil)
        (.ordinary rfl rfl rfl (.ordinary rfl rfl rfl (.literal rfl body .nil)))
    exact bracketed
  have found : closingIndex code 1 = some 12 :=
    (closing_bracket_is_first_balance.1 ['f'] '(' "[a], \"\\\")\"".toList " + (1)".toList rfl
      balanced).1
  obtain ⟨least, _, sameStrings⟩ := closing_bracket_is_first_balance.2 code 1 '(' rfl rfl
  exact ⟨rfl, balanced, rfl, rfl, found, (least 12).mp found, sameStrings rfl⟩

end ScriptUplift
