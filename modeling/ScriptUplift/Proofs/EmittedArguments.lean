import Mathlib.Data.List.Basic
import Mathlib.Tactic.Common
import ScriptUplift.Proofs.CarriedCalls

namespace ScriptUplift

/-!
# The arguments of an emission

Arguments that were cut from one list, joined again and put in the brackets of
another call are read there as the same arguments: each of them is closed, so
that the reader passes it in one step, and trimming takes off the space that
joining put in front.  An emission in its newer form is therefore a call with
the values of the older form.
-/

/-! ## Joined arguments -/

/-- A list of closed pieces is read back from between its commas. -/
theorem readPieces_joinWith
    {first : Text}
    {others : List Text}
    (closed : ∀ piece ∈ first :: others, IsClosed piece)
    {closing : Char}
    (closes : isClosingBracket closing = true)
    (rest : Text) :
    readPieces .outside 0 (Text.joinWith [','] (first :: others) ++ closing :: rest) =
      some (first :: others, rest) := by
  have ends : readPieces .outside 0 (closing :: rest) = some ([[]], rest) := by
    simp only [isClosingBracket, Bool.or_eq_true, beq_iff_eq] at closes
    rcases closes with (rfl | rfl) | rfl <;> rfl
  induction others generalizing first with
  | nil =>
      rw [Text.joinWith_singleton, readPieces_append (closed first List.mem_cons_self), ends]
      simp [pushPiece]
  | cons second others inductionHypothesis =>
      obtain ⟨firstClosed, othersClosed⟩ := List.forall_mem_cons.mp closed
      have shape : Text.joinWith [','] (first :: second :: others) ++ closing :: rest =
          first ++ ',' :: (Text.joinWith [','] (second :: others) ++ closing :: rest) := by
        simp [Text.joinWith_cons_cons]
      have comma (below : Text) : readPieces .outside 0 (',' :: below) =
          (readPieces .outside 0 below).map fun read => ([] :: read.1, read.2) :=
        rfl
      rw [shape, readPieces_append firstClosed, comma, inductionHypothesis othersClosed]
      simp [pushPiece]

/-- The pieces between the commas of arguments that were joined with a comma and a space. -/
def spacedPieces : List Text → List Text
  | [] =>
      [[]]
  | first :: others =>
      first :: others.map (' ' :: ·)

theorem joinWith_spacedPieces
    (arguments : List Text) :
    Text.joinWith [','] (spacedPieces arguments) = Text.joinWith ", ".toList arguments := by
  cases arguments with
  | nil =>
      rfl
  | cons first others =>
      induction others generalizing first with
      | nil =>
          rfl
      | cons second others inductionHypothesis =>
          have push (front one : Text) (more : List Text) :
              Text.joinWith [','] ((front ++ one) :: more) =
                front ++ Text.joinWith [','] (one :: more) := by
            cases more <;> simp [Text.joinWith_singleton, Text.joinWith_cons_cons]
          calc
            Text.joinWith [','] (spacedPieces (first :: second :: others))
              = first ++ ([','] ++ Text.joinWith [','] (([' '] ++ second) ::
                  others.map (' ' :: ·))) :=
                Text.joinWith_cons_cons _ _ _ _
            _ = first ++ (", ".toList ++ Text.joinWith [','] (spacedPieces (second :: others))) := by
                rw [push]
                rfl
            _ = Text.joinWith ", ".toList (first :: second :: others) := by
                rw [inductionHypothesis second, Text.joinWith_cons_cons]

theorem isClosed_of_mem_spacedPieces
    {arguments : List Text}
    (closed : ∀ argument ∈ arguments, IsClosed argument) :
    ∀ piece ∈ spacedPieces arguments, IsClosed piece := by
  have space : IsClosed [' '] := rfl
  cases arguments with
  | nil =>
      exact List.forall_mem_singleton.mpr rfl
  | cons first others =>
      obtain ⟨firstClosed, othersClosed⟩ := List.forall_mem_cons.mp closed
      refine List.forall_mem_cons.mpr ⟨firstClosed, List.forall_mem_map.mpr fun other member => ?_⟩
      exact space.append (othersClosed other member)

/-- Trimmed arguments come back when they are joined and cut; one empty argument is none. -/
theorem argumentsOf_spacedPieces
    {arguments : List Text}
    (trimmed : ∀ argument ∈ arguments, argument.trim = argument) :
    argumentsOf (spacedPieces arguments) = if arguments = [[]] then [] else arguments := by
  cases arguments with
  | nil =>
      rfl
  | cons first others =>
      have whole : (spacedPieces (first :: others)).map Text.trim = first :: others := by
        obtain ⟨firstTrimmed, othersTrimmed⟩ := List.forall_mem_cons.mp trimmed
        have spaced (other : Text) : Text.trim (' ' :: other) = other.trim :=
          rfl
        rw [spacedPieces, List.map_cons, firstTrimmed, List.map_map]
        exact congrArg (first :: ·) ((List.map_congr_left fun other member =>
          (spaced other).trans (othersTrimmed other member)).trans (List.map_id others))
      rw [argumentsOf, whole]

/-- The arguments of a call are trimmed. -/
theorem trim_of_mem_argumentsOf
    {pieces : List Text}
    {argument : Text}
    (member : argument ∈ argumentsOf pieces) :
    argument.trim = argument := by
  obtain ⟨piece, _, rfl⟩ := exists_of_mem_argumentsOf member
  exact piece.trim_trim

/-! ## A call behind a dot -/

/-- A word is read as a call when the list that follows it is read. -/
theorem siteAt_word
    {name : Text}
    (named : isIdentifier name = true)
    {first : Text}
    {others : List Text}
    (closed : ∀ piece ∈ first :: others, IsClosed piece)
    (rest : Text) :
    siteAt name (name ++ '(' :: (Text.joinWith [','] (first :: others) ++ ')' :: rest)) =
      some ⟨name ++ '(' :: (Text.joinWith [','] (first :: others) ++ ')' :: rest),
        argumentsOf (first :: others), rest⟩ := by
  generalize body : Text.joinWith [','] (first :: others) ++ ')' :: rest = below
  have letters : ∀ character ∈ name, isIdentifierChar character = true :=
    fun _ member => isIdentifierChar_of_mem named member
  have bracket : isIdentifierChar '(' = false := by
    decide
  have word : (name ++ '(' :: below).takeWhile isIdentifierChar = name := by
    rw [List.takeWhile_append_of_pos letters, List.takeWhile_cons_of_neg (by simp [bracket]),
      List.append_nil]
  have opens : ((name ++ '(' :: below).drop name.length).dropWhile (· == ' ') = '(' :: below := by
    rw [List.drop_left]
    exact List.dropWhile_cons_of_neg (by decide)
  have read : listAt ('(' :: below) = some (first :: others, rest) := by
    rw [← body]
    exact readPieces_joinWith closed (by decide) rest
  rw [siteAt, callAt, if_pos word, opens, read]
  rfl

/-- A word starts where code ends that leaves no string open and no word unfinished. -/
theorem append_mem_wordStarts
    {above start : Text}
    (apart : EndsApart .outside false above)
    (word : start.head?.any isIdentifierChar = true) :
    start ∈ wordStarts .outside false (above ++ start) := by
  rw [wordStarts_append, apart.outside, apart.noWord]
  refine List.mem_append_right _ ?_
  cases start with
  | nil =>
      cases word
  | cons character rest =>
      have isWord := (step_of_isIdentifierChar (by simpa using word)).1
      simp [wordStarts, isWord]

namespace Call

/-- A site that is read in code is that of a call that is found there. -/
theorem exists_of_mem_callSites
    {callee code : Text}
    (named : callee.head?.any isDigitChar = false)
    {site : CallSite}
    (member : site ∈ callSites callee code) :
    ∃ call ∈ findAll (· == callee) code,
      code.drop call.start = site.start ∧
        call.arguments code = site.arguments ∧
        code.drop (call.closeAt + 1) = site.rest := by
  rw [← map_findAll named] at member
  obtain ⟨call, found, rfl⟩ := List.mem_map.mp member
  exact ⟨call, found, rfl, rfl, rfl⟩

/-- Where a call stands is told by what is left of the code from its ends on. -/
theorem Placed.positions
    {call : Call}
    {code : Text}
    (placed : call.Placed code) :
    call.start = code.length - (code.drop call.start).length ∧
      call.closeAt + 1 = code.length - (code.drop (call.closeAt + 1)).length := by
  obtain ⟨bracket, closing, inside⟩ := placed
  rw [List.length_drop, List.length_drop]
  omega

/--
Behind code that ends apart, the newer form of an emission is read as a call of
`emit` behind the signal and a dot, up to the end of what is written.
-/
theorem exists_emission
    {above signal : Text}
    (apart : EndsApart .outside false above)
    (named : isIdentifier signal = true)
    {values : List Text}
    (closed : ∀ value ∈ values, IsClosed value)
    (trimmed : ∀ value ∈ values, value.trim = value)
    {text emitted : Text}
    (isText : signal ++ ".emit(".toList ++ Text.joinWith ", ".toList values ++ [')'] = text)
    (rest : Text)
    (isEmitted : above ++ text ++ rest = emitted) :
    ∃ emission ∈ findAll (· == "emit".toList) emitted,
      emission.start = above.length + signal.length + 1 ∧
        emission.arguments emitted = (if values = [[]] then [] else values) ∧
        emission.closeAt + 1 = above.length + text.length := by
  obtain ⟨first, others, isSpaced⟩ : ∃ first others, spacedPieces values = first :: others := by
    cases values <;> exact ⟨_, _, rfl⟩
  have spacedClosed := isClosed_of_mem_spacedPieces closed
  have joined := joinWith_spacedPieces values
  have read := argumentsOf_spacedPieces trimmed
  rw [isSpaced] at spacedClosed joined read
  let emission := "emit".toList ++ '(' :: (Text.joinWith ", ".toList values ++ ')' :: rest)
  have site : siteAt "emit".toList emission =
      some ⟨emission, if values = [[]] then [] else values, rest⟩ := by
    have atWord := siteAt_word (by decide : isIdentifier "emit".toList = true) spacedClosed rest
    rwa [joined, read] at atWord
  have signalApart : EndsApart .outside false ((above ++ signal) ++ ['.']) := by
    refine endsApart_concat ?_ (by decide) (by decide)
    rw [Quoting.through_append, apart.outside]
    exact (isClosed_of_isIdentifier named).through_eq
  have layout : emitted = ((above ++ signal) ++ ['.']) ++ emission := by
    rw [← isEmitted, ← isText]
    simp [emission]
  obtain ⟨again, isFound, startsAt, argumentsAgain, restAgain⟩ :=
    exists_of_mem_callSites (by decide : "emit".toList.head?.any isDigitChar = false)
      (List.mem_filterMap.mpr ⟨emission, append_mem_wordStarts signalApart (by rfl), site⟩)
  rw [← layout] at isFound startsAt argumentsAgain restAgain
  obtain ⟨startPosition, endPosition⟩ := (placed_of_mem_findAll isFound).2.positions
  rw [startsAt] at startPosition
  rw [restAgain] at endPosition
  dsimp only at startPosition endPosition
  -- Both layouts of the code give its length, which places the ends of the call.
  have beforeRest := congrArg List.length isEmitted
  have beforeEmission := congrArg List.length layout
  simp only [List.length_append, List.length_singleton] at beforeRest beforeEmission
  exact ⟨again, isFound, by omega, argumentsAgain, by omega⟩

/--
The newer form of an emission leaves the code around the call as it is.  It is a
call of `emit` behind the signal and a dot, it has the arguments behind the name
of the signal in their order, where a single empty argument is none, and its
closing bracket stands right before the unchanged rest.
-/
theorem emission_carries_arguments
    {code : Text}
    {call : Call}
    (found : call ∈ findAll (· == "emit_signal".toList) code)
    {signalText signal : Text}
    {values : List Text}
    (arguments : call.arguments code = signalText :: values)
    (literal : stringLiteral? signalText = some signal)
    (named : isIdentifier signal = true) :
    ∃ text, emitCall? (call.arguments code) = some text ∧
      let emitted := code.take call.start ++ text ++ code.drop (call.closeAt + 1)
      emitted.take call.start = code.take call.start ∧
        emitted.drop (call.start + text.length) = code.drop (call.closeAt + 1) ∧
        ∃ emission ∈ findAll (· == "emit".toList) emitted,
          emission.start = call.start + signal.length + 1 ∧
            emission.arguments emitted = (if values = [[]] then [] else values) ∧
            emission.closeAt + 1 = call.start + text.length := by
  obtain ⟨_, placed⟩ := placed_of_mem_findAll found
  have calleeName : CalleeName "emit_signal".toList := ReplacesCalls.emit.calleeName
  have isSite : call.toSite code ∈ callSites "emit_signal".toList code := by
    rw [← map_findAll calleeName.notNumber]
    exact List.mem_map_of_mem found
  obtain ⟨above, old, split, startsBelow, apart, _, pieces, called, sameArguments⟩ :=
    exists_parts_of_mem_callSites calleeName isSite
  have isAbove : above = code.take call.start := by
    have whole : code.take call.start ++ (old ++ (call.toSite code).rest) =
        above ++ (old ++ (call.toSite code).rest) := by
      rw [← split, ← startsBelow]
      exact List.take_append_drop _ _
    exact (List.append_cancel_right whole).symm
  have members : argumentsOf pieces = signalText :: values :=
    sameArguments.symm.trans arguments
  have closed : ∀ value ∈ values, IsClosed value := fun value member =>
    isClosed_of_mem_argumentsOf called.closed (members ▸ List.mem_cons_of_mem _ member)
  have trimmed : ∀ value ∈ values, value.trim = value := fun value member =>
    trim_of_mem_argumentsOf (members ▸ List.mem_cons_of_mem _ member)
  have isSignal : identifierLiteral? signalText = some signal :=
    Option.filter_eq_some_iff.mpr ⟨literal, named⟩
  have startLength : (code.take call.start).length = call.start := by
    obtain ⟨bracket, closing, inside⟩ := placed
    rw [List.length_take]
    omega
  rw [isAbove] at apart
  generalize isText : signal ++ ".emit(".toList ++ Text.joinWith ", ".toList values ++ [')'] = text
  have emission :=
    exists_emission apart named closed trimmed isText (code.drop (call.closeAt + 1)) rfl
  rw [startLength] at emission
  refine ⟨text, ?_, ?_, ?_, emission⟩
  · rw [arguments, emitCall?, isSignal, ← isText]
    rfl
  · rw [List.append_assoc]
    exact List.take_left' startLength
  · refine List.drop_left' ?_
    rw [List.length_append, startLength]

/-- The signal of an emission takes the place of its text, and its values are carried over. -/
theorem emission_carries_nested_values :
    let code := "x.emit_signal(\"hit\", [1, \"a,b\"], f(2)) + 1".toList
    ∃ text, emitCall? (Call.arguments ⟨"emit_signal".toList, 2, 13, 37, true⟩ code) = some text ∧
      let emitted := code.take 2 ++ text ++ code.drop 38
      emitted.take 2 = code.take 2 ∧
        emitted.drop (2 + text.length) = code.drop 38 ∧
        ∃ emission ∈ findAll (· == "emit".toList) emitted,
          emission.start = 2 + "hit".toList.length + 1 ∧
            emission.arguments emitted = ["[1, \"a,b\"]".toList, "f(2)".toList] ∧
            emission.closeAt + 1 = 2 + text.length :=
  @emission_carries_arguments "x.emit_signal(\"hit\", [1, \"a,b\"], f(2)) + 1".toList
    ⟨"emit_signal".toList, 2, 13, 37, true⟩ (by decide +kernel) "\"hit\"".toList "hit".toList
    ["[1, \"a,b\"]".toList, "f(2)".toList] (by decide +kernel) (by decide +kernel)
    (by decide +kernel)

end Call

end ScriptUplift
