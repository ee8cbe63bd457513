import Mathlib.Algebra.Order.BigOperators.Group.List
import Mathlib.Algebra.Order.Ring.Nat
import Mathlib.Data.List.Basic
import Mathlib.Tactic.Common
import ScriptUplift.Proofs.CallSites
import ScriptUplift.Proofs.Replacement

namespace ScriptUplift

/-!
# No replacement is the line it replaces

A rule that matches leaves another text than it found, or more than one line.
The replaced calls of a line are told by a measure that every one of them makes
smaller: the rebuilt signal calls hold fewer quotation marks, the others are
shorter.
-/

/-- A scan cuts a line into code and comment. -/
theorem Scan.code_append_comment
    (quote : Option Delimiter)
    (text : Text) :
    (line quote text).code ++ (line quote text).comment = text := by
  fun_induction line quote text <;> simp_all [Scan.cons, Scan.atEnd]

namespace LineParts

/-- The parts of a line make up the line. -/
theorem withCode_code
    (text : Text) :
    (ofText text).withCode (ofText text).code = text := by
  unfold withCode ofText
  dsimp only
  rw [Text.indentation_append_dropIndentation, Scan.code_append_comment]

/-- A line with other code is another line. -/
theorem withCode_ne
    {text code : Text}
    (other : code ≠ (ofText text).code) :
    (ofText text).withCode code ≠ text := by
  intro same
  have sameParts := same.trans (withCode_code text).symm
  unfold withCode at sameParts
  exact other (List.append_cancel_left (List.append_cancel_right sameParts))

end LineParts

/-- A trimmed text is what follows the blanks, up to some point. -/
theorem Text.trim_prefix
    (text : Text) :
    Text.trim text <+: text.dropWhile isBlankChar := by
  have fromEnd : (text.dropWhile isBlankChar).reverse.dropWhile isBlankChar <:+
      (text.dropWhile isBlankChar).reverse :=
    List.dropWhile_suffix _
  simpa [Text.trim, Text.dropEndWhile] using List.reverse_prefix.mpr fromEnd

theorem Text.trim_sublist
    (text : Text) :
    List.Sublist (Text.trim text) text :=
  text.trim_prefix.sublist.trans (List.dropWhile_sublist _)

/-- The pieces of an argument list hold no more of a kind of character than the list. -/
theorem sum_countP_argumentPieces_le
    (counted : Char → Bool)
    (depth : Int)
    (characters : List (Char × Char)) :
    ((argumentPieces depth characters).map (·.countP counted)).sum ≤
      (characters.map Prod.snd).countP counted := by
  induction characters generalizing depth with
  | nil =>
      simp [argumentPieces]
  | cons pair rest inductionHypothesis =>
      obtain ⟨masked, character⟩ := pair
      unfold argumentPieces
      split
      · have below := inductionHypothesis depth
        simp only [List.map_cons, List.sum_cons, List.countP_nil, List.countP_cons]
        omega
      · have below := inductionHypothesis (depth + bracketStep masked)
        split
        · rename_i piece pieces cut
          rw [cut] at below
          simp only [List.map_cons, List.sum_cons, List.countP_cons] at below ⊢
          omega
        · simp only [List.map_cons, List.map_nil, List.sum_cons, List.sum_nil, List.countP_cons,
            List.countP_nil]
          omega

/-- The arguments hold no more of a kind of character than the text they were split from. -/
theorem sum_countP_splitArguments_le
    (counted : Char → Bool)
    (text : Text) :
    ((splitArguments text).map (·.countP counted)).sum ≤ text.countP counted := by
  unfold splitArguments
  split
  · simp
  · have pieces := sum_countP_argumentPieces_le counted 0 ((maskStrings text).zip text)
    rw [List.map_snd_zip (by simp [maskStrings])] at pieces
    refine Nat.le_trans ?_ pieces
    rw [List.map_map]
    exact List.sum_le_sum fun piece _ => (Text.trim_sublist piece).countP_le

/-- What is built for the arguments of a call holds less than the call did. -/
def Shrinks
    (counted : Char → Bool)
    (least : Nat)
    (build : List Text → Option Text) :
    Prop :=
  ∀ arguments text, build arguments = some text →
    text.countP counted < least + (arguments.map (·.countP counted)).sum

/-- A kind of character of which the callee and the brackets of each call hold some. -/
def HoldsAtLeast
    (counted : Char → Bool)
    (calleeLength least : Nat) :
    Prop :=
  ∀ callee closing : Text, calleeLength + 1 ≤ callee.length → closing.length = 1 →
    least ≤ callee.countP counted + closing.countP counted

section

variable {counted : Char → Bool} {least : Nat} {callee : Text} {build : List Text → Option Text}

/-- Code in which one call is replaced holds less. -/
theorem countP_replaced_lt
    (holds : HoldsAtLeast counted callee.length least)
    (shrinks : Shrinks counted least build)
    {code : Text}
    {call : Call}
    {text : Text}
    (member : call ∈ Call.findAll (· == callee) code)
    (built : build (call.arguments code) = some text) :
    (code.take call.start ++ text ++ code.drop (call.closeAt + 1)).countP counted <
      code.countP counted := by
  obtain ⟨named, placed⟩ := Call.placed_of_mem_findAll member
  obtain ⟨head, closing, parts, headLength, closingLength⟩ := placed.exists_parts
  rw [beq_iff_eq] at named
  rw [named] at headLength
  have around := holds head closing headLength closingLength
  have inside := sum_countP_splitArguments_le counted (call.inner code)
  have smaller := shrinks _ _ built
  have whole := congrArg (List.countP counted) parts
  unfold Call.arguments at smaller
  simp only [List.countP_append] at whole ⊢
  omega

/-- Code in which calls were replaced holds less. -/
theorem countP_replaceCallsFrom_lt
    (holds : HoldsAtLeast counted callee.length least)
    (shrinks : Shrinks counted least build)
    (limit rank : Nat)
    (code : Text)
    (replaced : (replaceCallsFrom callee build limit rank code).2 ≠ 0) :
    (replaceCallsFrom callee build limit rank code).1.countP counted < code.countP counted := by
  induction limit generalizing rank code with
  | zero =>
      simp [replaceCallsFrom] at replaced
  | succ limit inductionHypothesis =>
      rcases replaceCallsFrom_succ callee build limit rank code with
        unchanged | ⟨call, text, next, member, built, step⟩
      · simp [unchanged] at replaced
      · have once := countP_replaced_lt holds shrinks member built
        rw [step]
        dsimp only
        by_cases last :
            (replaceCallsFrom callee build limit next
              (code.take call.start ++ text ++ code.drop (call.closeAt + 1))).2 = 0
        · rw [replaceCallsFrom_of_zero last]
          exact once
        · exact Nat.lt_trans (inductionHypothesis next _ last) once

end

/-- A line on which calls were replaced by smaller ones is another line. -/
theorem replaceCalls_ne
    {counted : Char → Bool}
    {least : Nat}
    {callee : String}
    {build : List Text → Option Text}
    (holds : HoldsAtLeast counted callee.toList.length least)
    (shrinks : Shrinks counted least build)
    {text : Text}
    {replacement : Replacement}
    (matched : replaceCalls callee build text = some replacement) :
    replacement.first ≠ text := by
  obtain ⟨replaced, rfl⟩ := replaceCalls_eq_some matched
  refine LineParts.withCode_ne fun same => ?_
  have smaller := countP_replaceCallsFrom_lt holds shrinks _ _ _ replaced
  rw [same] at smaller
  exact Nat.lt_irrefl _ smaller

/-- An identifier holds no quotation mark. -/
theorem countP_isQuoteMark_of_isIdentifier
    {name : Text}
    (identifier : isIdentifier name = true) :
    name.countP isQuoteMark = 0 := by
  rw [List.countP_eq_zero]
  have quoteless {character : Char} (isPart : isIdentifierChar character = true) :
      ¬isQuoteMark character = true := by
    intro quote
    simp only [isQuoteMark, Bool.or_eq_true, beq_iff_eq] at quote
    rcases quote with rfl | rfl <;> exact absurd isPart (by decide)
  cases name with
  | nil =>
      simp
  | cons first rest =>
      simp only [isIdentifier, Bool.and_eq_true, List.all_eq_true] at identifier
      refine List.forall_mem_cons.mpr ⟨quoteless ?_, fun character member => ?_⟩
      · simp [isIdentifierChar, identifier.1]
      · exact quoteless (identifier.2 character member)

/-- A string literal is its content between two quotation marks, up to the mark of a name. -/
theorem stringLiteral?_eq_some
    {text body : Text}
    (literal : stringLiteral? text = some body) :
    ∃ mark, isQuoteMark mark = true ∧ mark ∉ body ∧ '\\' ∉ body ∧
      (text.trim = mark :: (body ++ [mark]) ∨ text.trim = '&' :: mark :: (body ++ [mark])) := by
  unfold stringLiteral? at literal
  dsimp only at literal
  split at literal
  · rename_i mark rest bare
    split at literal
    · rename_i closed
      rw [Bool.and_eq_true, beq_iff_eq] at closed
      split at literal
      · cases literal
      · rename_i simple
        obtain rfl := Option.some.inj literal
        have whole : rest.dropLast ++ [mark] = rest :=
          List.dropLast_append_getLast? mark closed.2
        simp only [Bool.or_eq_true, List.contains_iff_mem, not_or] at simple
        refine ⟨mark, closed.1, simple.1, simple.2, ?_⟩
        rw [whole, ← bare]
        cases marked : text.trim.afterHead? ['&'] with
        | none =>
            exact .inl rfl
        | some behind =>
            exact .inr (Text.afterHead?_eq_some_iff.mp marked)
    · cases literal
  · cases literal

/-- A string literal holds its content between two quotation marks. -/
theorem exists_of_stringLiteral?
    {text body : Text}
    (literal : stringLiteral? text = some body) :
    ∃ mark, isQuoteMark mark = true ∧ List.Sublist (mark :: (body ++ [mark])) text := by
  obtain ⟨mark, quote, _, _, shape⟩ := stringLiteral?_eq_some literal
  refine ⟨mark, quote, List.Sublist.trans ?_ text.trim_sublist⟩
  rcases shape with shape | shape
  · rw [shape]
  · rw [shape]
    exact List.sublist_cons_self _ _

/-- A literal of an identifier holds two quotation marks and the identifier none. -/
theorem identifierLiteral?_spec
    {text name : Text}
    (literal : identifierLiteral? text = some name) :
    name.countP isQuoteMark = 0 ∧
      2 ≤ text.countP isQuoteMark ∧
      name.length + 2 ≤ text.length := by
  obtain ⟨found, identifier⟩ := Option.filter_eq_some_iff.mp literal
  obtain ⟨mark, quote, inside⟩ := exists_of_stringLiteral? found
  refine ⟨countP_isQuoteMark_of_isIdentifier identifier, ?_, ?_⟩
  · have counts := inside.countP_le (p := isQuoteMark)
    simp only [List.countP_cons, List.countP_append, List.countP_nil, quote, if_true] at counts
    omega
  · have lengths := inside.length_le
    simp only [List.length_cons, List.length_append, List.length_nil] at lengths
    omega

/-- Bound arguments are taken over from between the brackets. -/
theorem countP_bindSuffix?_le
    {binds suffix : Text}
    (bound : bindSuffix? binds = some suffix) :
    suffix.countP isQuoteMark ≤ binds.countP isQuoteMark := by
  unfold bindSuffix? at bound
  dsimp only at bound
  split at bound
  · rw [← Option.some.inj bound]
    split
    · simp
    · have keyword : List.countP isQuoteMark ".bind(".toList = 0 := by
        decide
      have inner : List.Sublist (Text.trim (binds.drop 1).dropLast) binds :=
        (Text.trim_sublist _).trans ((List.dropLast_sublist _).trans (List.drop_sublist _ _))
      have innerCount := inner.countP_le (p := isQuoteMark)
      have bracket : List.countP isQuoteMark [')'] = 0 := by
        decide
      simp only [List.countP_append, keyword, bracket]
      omega
  · cases bound

/-- Bound arguments and flags are taken over from the arguments after the handler. -/
theorem countP_extras_le
    {more : List Text}
    {bound : Text}
    (boundRead : (more.head?.map bindSuffix?).getD (some []) = some bound) :
    bound.countP isQuoteMark +
        ((more[1]?.map (", ".toList ++ ·)).getD []).countP isQuoteMark ≤
      (more.map (·.countP isQuoteMark)).sum := by
  have separator : List.countP isQuoteMark ", ".toList = 0 := by
    decide
  match more with
  | [] =>
      rw [← Option.some.inj boundRead]
      simp
  | [binds] =>
      have boundCount := countP_bindSuffix?_le boundRead
      simpa using boundCount
  | binds :: flags :: rest =>
      have boundCount := countP_bindSuffix?_le boundRead
      simp only [List.getElem?_cons_succ, List.getElem?_cons_zero, Option.map_some,
        Option.getD_some, List.countP_append, separator, List.map_cons, List.sum_cons]
      omega

/-- A rebuilt signal call holds no quotation marks around its signal and its handler. -/
theorem shrinks_rebuiltSignalCall?
    {method : String}
    (quoteless : method.toList.countP isQuoteMark = 0)
    (extras : Bool) :
    Shrinks isQuoteMark 0 (rebuiltSignalCall? method extras) := by
  intro arguments text built
  obtain ⟨signalText, target, handlerText, more, signal, handler, bound, rfl, _, signalRead,
    handlerRead, boundRead, rfl⟩ := rebuiltSignalCall?_eq_some built
  obtain ⟨signalCount, signalTextCount, _⟩ := identifierLiteral?_spec signalRead
  obtain ⟨handlerCount, _, _⟩ := identifierLiteral?_spec handlerRead
  have extraCount := countP_extras_le boundRead
  have separators : List.countP isQuoteMark ['.'] = 0 ∧ List.countP isQuoteMark ['('] = 0 ∧
      List.countP isQuoteMark [')'] = 0 := by
    decide
  have callableCount :
      List.countP isQuoteMark
          (if target = "self".toList then handler else target ++ ['.'] ++ handler) ≤
        List.countP isQuoteMark target := by
    split <;> simp only [List.countP_append, handlerCount, separators.1] <;> omega
  simp only [List.countP_append, signalCount, quoteless, separators, List.map_cons,
    List.sum_cons]
  omega

theorem countP_joinWith_comma
    (values : List Text) :
    (Text.joinWith ", ".toList values).countP isQuoteMark =
      (values.map (·.countP isQuoteMark)).sum := by
  have separator : List.countP isQuoteMark ", ".toList = 0 := by
    decide
  unfold Text.joinWith List.intercalate
  induction values with
  | nil =>
      rfl
  | cons value rest inductionHypothesis =>
      cases rest with
      | nil =>
          simp
      | cons second others =>
          rw [List.intersperse_cons_cons, List.flatten_cons, List.flatten_cons,
            List.countP_append, List.countP_append, inductionHypothesis, separator, Nat.zero_add]
          simp only [List.map_cons, List.sum_cons]

/-- An emitted signal loses the quotation marks around its name. -/
theorem shrinks_emitCall? :
    Shrinks isQuoteMark 0 emitCall? := by
  intro arguments text built
  obtain ⟨signalText, values, signal, rfl, signalRead, rfl⟩ := emitCall?_eq_some built
  obtain ⟨signalCount, signalTextCount, _⟩ := identifierLiteral?_spec signalRead
  have method : List.countP isQuoteMark ".emit(".toList = 0 := by
    decide
  have bracket : List.countP isQuoteMark [')'] = 0 := by
    decide
  simp only [List.countP_append, signalCount, method, bracket, countP_joinWith_comma,
    List.map_cons, List.sum_cons]
  omega

/-- What a suspension waits for is no longer than the arguments that name it. -/
theorem Awaited.length_le
    {arguments : List Text}
    {awaited : Text}
    (names : Awaited arguments awaited) :
    awaited.length ≤ (arguments.map (·.length)).sum := by
  cases names with
  | expression =>
      exact Nat.le_refl _
  | completed =>
      simp
  | own isSignal =>
      obtain ⟨_, _, signalLength⟩ := identifierLiteral?_spec isSignal
      simp only [List.map_cons, List.map_nil, List.sum_cons, List.sum_nil]
      omega
  | signal object isSignal =>
      obtain ⟨_, _, signalLength⟩ := identifierLiteral?_spec isSignal
      simp only [List.length_append, List.length_cons, List.map_cons, List.map_nil, List.sum_cons,
        List.sum_nil]
      omega

/-- A suspension is shorter than the call, which has two brackets more. -/
theorem shrinks_awaitExpression? :
    Shrinks (fun _ => true) 7 awaitExpression? := by
  intro arguments text built
  have keyword : "await ".toList.length = 6 := by
    decide
  obtain ⟨awaited, names, rfl⟩ := awaitExpression?_eq_some built
  have fits := names.length_le
  simp only [List.countP_true, List.length_append, keyword]
  omega

theorem holdsAtLeast_zero
    (counted : Char → Bool)
    (calleeLength : Nat) :
    HoldsAtLeast counted calleeLength 0 :=
  fun _ _ _ _ => Nat.zero_le _

theorem holdsAtLeast_length
    {calleeLength least : Nat}
    (brackets : least ≤ calleeLength + 2) :
    HoldsAtLeast (fun _ => true) calleeLength least := by
  intro callee closing calleeLong closingLong
  simp only [List.countP_true]
  omega

/-- The directive gets a mark it did not have. -/
theorem upliftToolDirective_ne
    {text : Text}
    {replacement : Replacement}
    (matched : upliftToolDirective text = some replacement) :
    replacement.first ≠ text := by
  obtain ⟨directive, rfl⟩ := upliftToolDirective_eq_some matched
  refine LineParts.withCode_ne fun same => ?_
  -- The mark would be the first visible character of the code.
  rw [← same] at directive
  have trimmed := Text.trim_prefix ("@tool".toList ++ (LineParts.ofText text).trailing)
  rw [directive] at trimmed
  have visible : List.dropWhile isBlankChar ("@tool".toList ++ (LineParts.ofText text).trailing) =
      '@' :: ("tool".toList ++ (LineParts.ofText text).trailing) :=
    List.dropWhile_cons_of_neg (by decide)
  rw [visible] at trimmed
  exact absurd (List.cons_prefix_cons.mp trimmed).1 (by decide)

theorem repeatsBefore_iff
    {word tail text : Text}
    {times : Nat} :
    repeatsBefore word tail times text = true ↔
      text = (List.replicate times word).flatten ++ tail := by
  induction times generalizing text with
  | zero =>
      simp [repeatsBefore]
  | succ times inductionHypothesis =>
      rw [repeatsBefore, List.replicate_succ, List.flatten_cons, List.append_assoc]
      constructor
      · intro repeats
        split at repeats
        · rename_i rest found
          rw [Text.afterHead?_eq_some_iff.mp found, inductionHypothesis.mp repeats]
        · cases repeats
      · intro shape
        rw [Text.afterHead?_eq_some_iff.mpr shape]
        exact inductionHypothesis.mpr rfl

theorem length_of_repeatsBefore
    {word tail text : Text}
    {times : Nat}
    (repeats : repeatsBefore word tail times text = true) :
    text.length = times * word.length + tail.length := by
  rw [repeatsBefore_iff.mp repeats, List.length_append, List.length_flatten, List.map_replicate,
    List.sum_replicate_nat]

/-- A stuttered name is longer than the name without the stutter. -/
theorem length_of_isRepeatedPreload
    {name : Text}
    (stuttered : isRepeatedPreload name = true) :
    7 < name.length := by
  obtain ⟨times, _, repeats⟩ := List.any_eq_true.mp stuttered
  have words : "pre".toList.length = 3 ∧ "preload".toList.length = 7 := by
    decide
  have length := length_of_repeatsBefore repeats
  rw [words.1, words.2] at length
  omega

/-- Collapsing callees behind a position keeps the code up to the position. -/
theorem le_length_collapsed
    {calls : List Call}
    {code : Text}
    {position : Nat}
    (behind : ∀ call ∈ calls, position ≤ call.start)
    (inside : position ≤ code.length) :
    position ≤ (collapsed calls code).length := by
  induction calls with
  | nil =>
      exact inside
  | cons call rest inductionHypothesis =>
      obtain ⟨own, others⟩ := List.forall_mem_cons.mp behind
      have kept := inductionHypothesis others
      unfold collapsed at kept ⊢
      simp only [List.foldr_cons, List.length_append, List.length_take]
      omega

/-- Each collapsed callee makes the code shorter. -/
theorem length_collapsed_lt
    {calls : List Call}
    {code : Text}
    (stuttered : ∀ call ∈ calls, 7 < call.name.length)
    (inside : ∀ call ∈ calls, call.start + call.name.length ≤ code.length)
    (apart : calls.Pairwise fun earlier later => earlier.start + earlier.name.length ≤ later.start)
    (some : calls ≠ []) :
    (collapsed calls code).length < code.length := by
  induction calls with
  | nil =>
      exact absurd rfl some
  | cons call rest inductionHypothesis =>
      obtain ⟨long, othersLong⟩ := List.forall_mem_cons.mp stuttered
      obtain ⟨ownInside, othersInside⟩ := List.forall_mem_cons.mp inside
      obtain ⟨before, othersApart⟩ := List.pairwise_cons.mp apart
      have kept := le_length_collapsed before ownInside
      have restShorter : (collapsed rest code).length ≤ code.length := by
        cases rest with
        | nil =>
            exact Nat.le_refl _
        | cons next others =>
            exact Nat.le_of_lt
              (inductionHypothesis othersLong othersInside othersApart (List.cons_ne_nil _ _))
      have word : "preload".toList.length = 7 := by
        decide
      have step : (collapsed (call :: rest) code).length =
          min call.start (collapsed rest code).length + 7 +
            ((collapsed rest code).length - (call.start + call.name.length)) := by
        simp only [collapsed, List.foldr_cons, List.length_append, List.length_take,
          List.length_drop, word]
      rw [step]
      omega

/-- Collapsed callees leave a shorter line. -/
theorem upliftPreloads_ne
    {text : Text}
    {replacement : Replacement}
    (matched : upliftPreloads text = some replacement) :
    replacement.first ≠ text := by
  obtain ⟨found, rfl⟩ := upliftPreloads_eq_some matched
  refine LineParts.withCode_ne fun same => ?_
  have shorter : (collapsed (Call.findAll isRepeatedPreload (LineParts.ofText text).code)
      (LineParts.ofText text).code).length < (LineParts.ofText text).code.length := by
    refine length_collapsed_lt (fun call member => ?_) (fun call member => ?_)
      (Call.pairwise_findAll _ _) found
    · exact length_of_isRepeatedPreload (Call.placed_of_mem_findAll member).1
    · obtain ⟨_, bracket, closing, inside⟩ := Call.placed_of_mem_findAll member
      omega
  rw [same] at shorter
  exact Nat.lt_irrefl _ shorter

theorem Text.length_dropIndentation_le
    (text : Text) :
    List.length (Text.dropIndentation text) ≤ text.length :=
  (List.dropWhile_sublist _).length_le

/-- The text after the first word is shorter by the word. -/
theorem length_firstWord_le
    (text : Text) :
    (firstWord text).1.length + (firstWord text).2.length ≤ text.length := by
  have parts : (firstWord text).1 ++ (firstWord text).2 = text.dropIndentation :=
    List.takeWhile_append_dropWhile
  have lengths := congrArg List.length parts
  have shorter := Text.length_dropIndentation_le text
  rw [List.length_append] at lengths
  omega

/-- A field whose annotation stands above loses its keyword. -/
theorem upliftDeferredInit_ne
    {above text : Text}
    {replacement : Replacement}
    (matched : upliftDeferredInit above text = some replacement)
    (whole : replacement.others = []) :
    replacement.first ≠ text := by
  have keyword : "onready".toList.length = 7 := by
    decide
  obtain ⟨isDeferred, _, rfl | rfl⟩ := upliftDeferredInit_eq_some matched
  · have wordLength := length_firstWord_le (LineParts.ofText text).code
    have restLength := Text.length_dropIndentation_le (firstWord (LineParts.ofText text).code).2
    rw [isDeferred, keyword] at wordLength
    refine LineParts.withCode_ne fun same => ?_
    have lengths := congrArg List.length same
    omega
  · exact absurd whole (List.cons_ne_nil _ _)

/-- The keywords of a legacy export take up room before what follows them. -/
theorem LegacyExport.length_afterKeyword_le
    {code : Text}
    {start : Text × Text}
    (isStart :
      (if ((firstWord code).1 == "onready".toList) = true then firstWord (firstWord code).2
        else ((firstWord code).1, (firstWord code).2)) = start)
    (exports : start.1 = "export".toList) :
    start.2.length + (if ((firstWord code).1 == "onready".toList) = true then 13 else 6) ≤
      code.length := by
  have keywords : "onready".toList.length = 7 ∧ "export".toList.length = 6 := by
    decide
  have firstLength := length_firstWord_le code
  split at isStart
  · rename_i before
    have secondLength := length_firstWord_le (firstWord code).2
    rw [isStart, exports, keywords.2] at secondLength
    rw [if_pos before]
    rw [beq_iff_eq] at before
    rw [before, keywords.1] at firstLength
    omega
  · rename_i notBefore
    rw [if_neg notBefore, ← isStart]
    rw [← isStart] at exports
    dsimp only at exports ⊢
    rw [exports, keywords.2] at firstLength
    omega

theorem LegacyExport.HintRead.length_le
    {rest tail : Text}
    {arguments : List Text}
    (hint : HintRead rest arguments tail) :
    tail.length ≤ rest.length := by
  cases hint with
  | @listed closeAt _ _ =>
      have shorter := Text.length_dropIndentation_le (rest.drop (closeAt + 1))
      rw [List.length_drop] at shorter
      omega
  | bare =>
      exact Nat.le_refl _

/--
A legacy export begins with its keywords.  The declaration is all that follows
their arguments, or all that follows one more word `onready`.
-/
theorem LegacyExport.exists_tail
    {code : Text}
    {legacy : LegacyExport}
    (found : ofCode? code = some legacy) :
    ∃ (before : Bool) (tail : Text),
      tail.length + (if before then 13 else 6) ≤ code.length ∧
        legacy.onready = (before || ((firstWord tail).1 == "onready".toList && !before)) ∧
        legacy.declaration =
          if ((firstWord tail).1 == "onready".toList && !before) = true then
            (firstWord tail).2.dropIndentation
          else tail := by
  obtain ⟨start, tail, isStart, exports, hint, onready, declaration, _⟩ := ofCode?_cases found
  have room := length_afterKeyword_le isStart exports
  have restLength := Text.length_dropIndentation_le start.2
  have tailLength := hint.length_le
  exact ⟨(firstWord code).1 == "onready".toList, tail, by omega, onready, declaration⟩

/-- What is kept of a legacy export is shorter than the export. -/
theorem LegacyExport.length_lt
    {code : Text}
    {legacy : LegacyExport}
    (found : ofCode? code = some legacy) :
    (if legacy.onready then "onready ".toList else []).length + legacy.declaration.length <
      code.length := by
  have keywords : "onready".toList.length = 7 ∧ "onready ".toList.length = 8 := by
    decide
  obtain ⟨before, tail, room, onready, declaration⟩ := exists_tail found
  rw [onready, declaration]
  cases after : ((firstWord tail).1 == "onready".toList && !before) with
  | true =>
      have onlyAfter : before = false := by
        simp only [Bool.and_eq_true, Bool.not_eq_true'] at after
        exact after.2
      rw [Bool.and_eq_true, beq_iff_eq] at after
      have wordLength := length_firstWord_le tail
      have declarationLength := Text.length_dropIndentation_le (firstWord tail).2
      rw [after.1, keywords.1] at wordLength
      rw [onlyAfter] at room ⊢
      simp only [Bool.false_or, if_true, Bool.false_eq_true, if_false, keywords.2] at room ⊢
      omega
  | false =>
      cases before with
      | true =>
          simp only [Bool.true_or, if_true, Bool.false_eq_true, if_false, keywords.2] at room ⊢
          omega
      | false =>
          simp only [Bool.or_false, Bool.false_eq_true, if_false, List.length_nil] at room ⊢
          omega

/-- An exported field whose annotation stands above loses its keyword. -/
theorem upliftExportedField_ne
    {above text : Text}
    {replacement : Replacement}
    (matched : upliftExportedField above text = some replacement)
    (whole : replacement.others = []) :
    replacement.first ≠ text := by
  obtain ⟨legacy, found, rfl | rfl⟩ := upliftExportedField_eq_some matched
  · have shorter := LegacyExport.length_lt found
    refine LineParts.withCode_ne fun same => ?_
    have lengths := congrArg List.length same
    rw [List.length_append] at lengths
    omega
  · exact absurd whole (List.cons_ne_nil _ _)

/-- A rule that leaves one line leaves another text. -/
theorem UpliftRule.first_ne_of_apply
    {rule : UpliftRule}
    {above text : Text}
    {replacement : Replacement}
    (matched : rule.apply above text = some replacement)
    (whole : replacement.others = []) :
    replacement.first ≠ text := by
  cases rule with
  | toolDirective =>
      exact upliftToolDirective_ne matched
  | preloadStutter =>
      exact upliftPreloads_ne matched
  | exportedField =>
      exact upliftExportedField_ne matched whole
  | deferredInit =>
      exact upliftDeferredInit_ne matched whole
  | connect =>
      exact replaceCalls_ne (holdsAtLeast_zero _ _)
        (shrinks_rebuiltSignalCall? (by decide) true) matched
  | disconnect =>
      exact replaceCalls_ne (holdsAtLeast_zero _ _)
        (shrinks_rebuiltSignalCall? (by decide) false) matched
  | isConnected =>
      exact replaceCalls_ne (holdsAtLeast_zero _ _)
        (shrinks_rebuiltSignalCall? (by decide) false) matched
  | emit =>
      exact replaceCalls_ne (holdsAtLeast_zero _ _) shrinks_emitCall? matched
  | suspension =>
      exact replaceCalls_ne (holdsAtLeast_length (by decide)) shrinks_awaitExpression? matched

end ScriptUplift
