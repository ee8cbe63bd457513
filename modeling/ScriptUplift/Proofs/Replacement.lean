import Mathlib.Data.List.Basic
import Mathlib.Data.Option.Basic
import Mathlib.Tactic.Common
import ScriptUplift.Uplift.Rule

namespace ScriptUplift

/-!
# What a replacement leaves of a line

Whatever a rule matches, it counts at least one replacement and leaves code
behind.  Only the two field rules cut a line in two.
-/

namespace Text

/-- A text with a visible character is not blank. -/
theorem isBlank_eq_false_of_mem
    {text : Text}
    {character : Char}
    (member : character ∈ text)
    (visible : isBlankChar character = false) :
    text.isBlank = false := by
  rw [← Bool.not_eq_true]
  intro blank
  have blankChar := List.all_eq_true.mp blank character member
  simp [visible] at blankChar

theorem mem_of_mem_firstWord
    {text : Text}
    {character : Char}
    (member : character ∈ (firstWord text).1) :
    character ∈ text :=
  (List.dropWhile_suffix _).subset ((List.takeWhile_prefix _).subset member)

/-- A declaration, whose first word is `var`, is not blank. -/
theorem isBlank_eq_false_of_var
    {declaration : Text}
    (starts : (firstWord declaration).1 = "var".toList) :
    declaration.isBlank = false := by
  have member : 'v' ∈ (firstWord declaration).1 := by
    rw [starts]
    decide
  exact isBlank_eq_false_of_mem (mem_of_mem_firstWord member) (by decide)

end Text

theorem LineParts.isBlank_withCode
    (parts : LineParts)
    {code : Text}
    (visible : code.isBlank = false) :
    (parts.withCode code).isBlank = false := by
  simp [withCode, visible]

theorem isBlank_withDeclaredType
    {declaration : Text}
    (starts : (firstWord declaration).1 = "var".toList)
    (type : Text) :
    (withDeclaredType declaration type).isBlank = false := by
  unfold withDeclaredType
  split
  · exact Text.isBlank_eq_false_of_var starts
  · dsimp only
    split
    · exact Text.isBlank_eq_false_of_var starts
    · have keyword : Text.isBlank "var ".toList = false := by
        decide
      simp only [Text.isBlank_append, keyword, Bool.false_and]

/--
A replacing step either ends with the code as it is, or puts what was built for
one call in its place and goes on.
-/
theorem replaceCallsFrom_succ
    (callee : Text)
    (build : List Text → Option Text)
    (limit rank : Nat)
    (code : Text) :
    replaceCallsFrom callee build (limit + 1) rank code = (code, 0) ∨
      ∃ (call : Call) (text : Text) (next : Nat),
        call ∈ Call.findAll (· == callee) code ∧
          build (call.arguments code) = some text ∧
          replaceCallsFrom callee build (limit + 1) rank code =
            ((replaceCallsFrom callee build limit next
                (code.take call.start ++ text ++ code.drop (call.closeAt + 1))).1,
              (replaceCallsFrom callee build limit next
                (code.take call.start ++ text ++ code.drop (call.closeAt + 1))).2 + 1) := by
  rw [replaceCallsFrom]
  dsimp only
  split
  · rename_i skipped call text _ found
    obtain ⟨candidate, among, isFound⟩ := List.exists_of_findSome?_eq_some found
    obtain ⟨tried, isTried, built⟩ := List.mem_map.mp among
    rw [id_eq] at isFound
    rw [isFound] at built
    obtain ⟨_, isText, pair⟩ := Option.map_eq_some_iff.mp built
    obtain ⟨rfl, rfl⟩ := Prod.mk.inj pair
    exact .inr ⟨tried, _, rank + skipped, List.mem_of_mem_drop isTried, isText, rfl⟩
  · exact .inl rfl

/-- Code in which no call was replaced is as it was. -/
theorem replaceCallsFrom_of_zero
    {callee : Text}
    {build : List Text → Option Text}
    {limit rank : Nat}
    {code : Text}
    (none : (replaceCallsFrom callee build limit rank code).2 = 0) :
    (replaceCallsFrom callee build limit rank code).1 = code := by
  cases limit with
  | zero =>
      rfl
  | succ limit =>
      rcases replaceCallsFrom_succ callee build limit rank code with
        unchanged | ⟨call, text, next, _, _, step⟩
      · rw [unchanged]
      · simp [step] at none

/-- Code in which a call was replaced shows the replacement that was made last. -/
theorem replaceCallsFrom_visible
    {callee : Text}
    {build : List Text → Option Text}
    (visible : ∀ arguments text, build arguments = some text → text.isBlank = false)
    (limit rank : Nat)
    (code : Text)
    (replaced : (replaceCallsFrom callee build limit rank code).2 ≠ 0) :
    (replaceCallsFrom callee build limit rank code).1.isBlank = false := by
  induction limit generalizing rank code with
  | zero =>
      simp [replaceCallsFrom] at replaced
  | succ limit inductionHypothesis =>
      rcases replaceCallsFrom_succ callee build limit rank code with
        unchanged | ⟨call, text, next, _, built, step⟩
      · simp [unchanged] at replaced
      · rw [step]
        dsimp only
        by_cases last :
            (replaceCallsFrom callee build limit next
              (code.take call.start ++ text ++ code.drop (call.closeAt + 1))).2 = 0
        · rw [replaceCallsFrom_of_zero last]
          simp [visible _ _ built]
        · exact inductionHypothesis next _ last

/-- What a line becomes whose calls were replaced. -/
theorem replaceCalls_eq_some
    {callee : String}
    {build : List Text → Option Text}
    {text : Text}
    {replacement : Replacement}
    (matched : replaceCalls callee build text = some replacement) :
    let parts := LineParts.ofText text
    let replaced := replaceCallsFrom callee.toList build maxCallsPerLine 0 parts.code
    replaced.2 ≠ 0 ∧ replacement = { first := parts.withCode replaced.1, count := replaced.2 } := by
  unfold replaceCalls at matched
  dsimp only at matched
  split at matched
  · cases matched
  · rename_i replaced
    exact ⟨replaced, (Option.some.inj matched).symm⟩

/-- A line on which calls were replaced stays one line and counts each replacement. -/
theorem replaceCalls_spec
    {callee : String}
    {build : List Text → Option Text}
    (visible : ∀ arguments text, build arguments = some text → text.isBlank = false)
    {text : Text}
    {replacement : Replacement}
    (matched : replaceCalls callee build text = some replacement) :
    replacement.others = [] ∧
      0 < replacement.count ∧
      replacement.first.isBlank = false := by
  obtain ⟨replaced, rfl⟩ := replaceCalls_eq_some matched
  exact ⟨rfl, Nat.pos_of_ne_zero replaced,
    LineParts.isBlank_withCode _ (replaceCallsFrom_visible visible _ _ _ replaced)⟩

/-- What a signal call is rebuilt from. -/
theorem rebuiltSignalCall?_eq_some
    {method : String}
    {extras : Bool}
    {arguments : List Text}
    {text : Text}
    (built : rebuiltSignalCall? method extras arguments = some text) :
    ∃ signalText target handlerText more signal handler bound,
      arguments = signalText :: target :: handlerText :: more ∧
        ((!extras && !more.isEmpty) || decide (2 < more.length)) = false ∧
        identifierLiteral? signalText = some signal ∧
        identifierLiteral? handlerText = some handler ∧
        (more.head?.map bindSuffix?).getD (some []) = some bound ∧
        text = signal ++ ['.'] ++ method.toList ++ ['('] ++
          (if target = "self".toList then handler else target ++ ['.'] ++ handler) ++ bound ++
          (more[1]?.map (", ".toList ++ ·)).getD [] ++ [')'] := by
  unfold rebuiltSignalCall? at built
  split at built
  · split at built
    · cases built
    · rename_i allowed
      simp only [Option.bind_eq_bind, Option.bind_eq_some_iff, Option.some.injEq] at built
      obtain ⟨signal, isSignal, handler, isHandler, bound, isBound, rfl⟩ := built
      exact ⟨_, _, _, _, signal, handler, bound, rfl, Bool.not_eq_true _ ▸ allowed, isSignal, isHandler,
        isBound, rfl⟩
  · cases built

theorem rebuiltSignalCall?_visible
    {method : String}
    {extras : Bool}
    (arguments : List Text)
    (text : Text)
    (built : rebuiltSignalCall? method extras arguments = some text) :
    text.isBlank = false := by
  obtain ⟨_, _, _, _, _, _, _, _, _, _, _, _, rfl⟩ := rebuiltSignalCall?_eq_some built
  have bracket : Text.isBlank ['('] = false := by
    decide
  simp only [Text.isBlank_append, bracket, Bool.and_false, Bool.false_and]

/-- What an emission is rebuilt from. -/
theorem emitCall?_eq_some
    {arguments : List Text}
    {text : Text}
    (built : emitCall? arguments = some text) :
    ∃ signalText values signal,
      arguments = signalText :: values ∧
        identifierLiteral? signalText = some signal ∧
        text = signal ++ ".emit(".toList ++ Text.joinWith ", ".toList values ++ [')'] := by
  unfold emitCall? at built
  split at built
  · obtain ⟨signal, isSignal, rfl⟩ := Option.map_eq_some_iff.mp built
    exact ⟨_, _, signal, rfl, isSignal, rfl⟩
  · cases built

theorem emitCall?_visible
    (arguments : List Text)
    (text : Text)
    (built : emitCall? arguments = some text) :
    text.isBlank = false := by
  obtain ⟨_, _, _, _, _, rfl⟩ := emitCall?_eq_some built
  have bracket : Text.isBlank [')'] = false := by
    decide
  simp only [Text.isBlank_append, bracket, Bool.and_false]

/-- What the arguments of a suspension name to wait for. -/
inductive Awaited :
    List Text → Text → Prop
  | expression
      (awaited : Text) :
      Awaited [awaited] awaited
  | completed
      (object : Text)
      {signalText : Text}
      (isSignal : identifierLiteral? signalText = some "completed".toList) :
      Awaited [object, signalText] object
  | own
      {signalText signal : Text}
      (isSignal : identifierLiteral? signalText = some signal) :
      Awaited ["self".toList, signalText] signal
  | signal
      (object : Text)
      {signalText signal : Text}
      (isSignal : identifierLiteral? signalText = some signal) :
      Awaited [object, signalText] (object ++ '.' :: signal)

/-- What a suspension is rebuilt from. -/
theorem awaitExpression?_eq_some
    {arguments : List Text}
    {text : Text}
    (built : awaitExpression? arguments = some text) :
    ∃ awaited, Awaited arguments awaited ∧ text = "await ".toList ++ awaited := by
  unfold awaitExpression? at built
  split at built
  · exact ⟨_, .expression _, (Option.some.inj built).symm⟩
  · rename_i object signalText
    obtain ⟨signal, isSignal, rfl⟩ := Option.map_eq_some_iff.mp built
    split
    · rename_i isCompleted
      exact ⟨object, .completed object (isCompleted ▸ isSignal), rfl⟩
    · split
      · rename_i isSelf
        subst isSelf
        exact ⟨signal, .own isSignal, rfl⟩
      · refine ⟨object ++ '.' :: signal, .signal object isSignal, ?_⟩
        simp only [List.append_assoc, List.cons_append, List.nil_append]
  · cases built

theorem awaitExpression?_visible
    (arguments : List Text)
    (text : Text)
    (built : awaitExpression? arguments = some text) :
    text.isBlank = false := by
  have keyword : Text.isBlank "await ".toList = false := by
    decide
  obtain ⟨_, _, rfl⟩ := awaitExpression?_eq_some built
  simp only [Text.isBlank_append, keyword, Bool.false_and]

theorem upliftToolDirective_eq_some
    {text : Text}
    {replacement : Replacement}
    (matched : upliftToolDirective text = some replacement) :
    let parts := LineParts.ofText text
    parts.code.trim = "tool".toList ∧
      replacement = { first := parts.withCode ("@tool".toList ++ parts.trailing) } := by
  unfold upliftToolDirective at matched
  dsimp only at matched
  split at matched
  · rename_i directive
    exact ⟨directive, (Option.some.inj matched).symm⟩
  · cases matched

/-- A bare directive is replaced by its annotation on the same line. -/
theorem upliftToolDirective_spec
    {text : Text}
    {replacement : Replacement}
    (matched : upliftToolDirective text = some replacement) :
    replacement.others = [] ∧
      0 < replacement.count ∧
      replacement.first.isBlank = false := by
  obtain ⟨_, rfl⟩ := upliftToolDirective_eq_some matched
  have directive : Text.isBlank "@tool".toList = false := by
    decide
  refine ⟨rfl, Nat.one_pos, LineParts.isBlank_withCode _ ?_⟩
  simp only [Text.isBlank_append, directive, Bool.false_and]

/-- The code in which the callees of calls are collapsed, the last one first. -/
def collapsed
    (calls : List Call)
    (code : Text) :
    Text :=
  calls.foldr
    (fun call code =>
      code.take call.start ++ "preload".toList ++ code.drop (call.start + call.name.length))
    code

theorem upliftPreloads_eq_some
    {text : Text}
    {replacement : Replacement}
    (matched : upliftPreloads text = some replacement) :
    let parts := LineParts.ofText text
    let calls := Call.findAll isRepeatedPreload parts.code
    calls ≠ [] ∧
      replacement = { first := parts.withCode (collapsed calls parts.code), count := calls.length } := by
  unfold upliftPreloads at matched
  dsimp only at matched
  split at matched
  · cases matched
  · rename_i found
    exact ⟨fun none => found (List.isEmpty_iff.mpr none), (Option.some.inj matched).symm⟩

/-- Stuttered callees are collapsed on the same line, each counted once. -/
theorem upliftPreloads_spec
    {text : Text}
    {replacement : Replacement}
    (matched : upliftPreloads text = some replacement) :
    replacement.others = [] ∧
      0 < replacement.count ∧
      replacement.first.isBlank = false := by
  obtain ⟨found, rfl⟩ := upliftPreloads_eq_some matched
  have callee : Text.isBlank "preload".toList = false := by
    decide
  refine ⟨rfl, List.length_pos_of_ne_nil found, LineParts.isBlank_withCode _ ?_⟩
  obtain ⟨call, rest, isCalls⟩ := List.exists_cons_of_ne_nil found
  rw [isCalls, collapsed, List.foldr_cons]
  simp only [Text.isBlank_append, callee, Bool.and_false, Bool.false_and]

/--
A deferred field keeps its declaration, below the annotation for it or on the
line that has the annotation above.
-/
theorem upliftDeferredInit_eq_some
    {above text : Text}
    {replacement : Replacement}
    (matched : upliftDeferredInit above text = some replacement) :
    let parts := LineParts.ofText text
    let declaration := (firstWord parts.code).2.dropIndentation
    (firstWord parts.code).1 = "onready".toList ∧
      (firstWord declaration).1 = "var".toList ∧
      (replacement = { first := parts.withCode declaration } ∨
        replacement =
          { first := parts.indentation ++ "@onready".toList
            others := [parts.withCode declaration] }) := by
  unfold upliftDeferredInit at matched
  dsimp only at matched
  split at matched
  · rename_i legacy
    rw [Bool.and_eq_true, decide_eq_true_eq, beq_iff_eq] at legacy
    refine ⟨legacy.1, legacy.2, ?_⟩
    split at matched
    · exact .inl (Option.some.inj matched).symm
    · exact .inr (Option.some.inj matched).symm
  · cases matched

/-- The declaration of a deferred field is kept on the last line. -/
theorem upliftDeferredInit_spec
    {above text : Text}
    {replacement : Replacement}
    (matched : upliftDeferredInit above text = some replacement) :
    0 < replacement.count ∧
      ∃ line ∈ replacement.lines, line.isBlank = false := by
  obtain ⟨_, declares, shape⟩ := upliftDeferredInit_eq_some matched
  have visible := LineParts.isBlank_withCode (LineParts.ofText text)
    (Text.isBlank_eq_false_of_var declares)
  rcases shape with rfl | rfl
  · exact ⟨Nat.one_pos, _, List.mem_cons_self, visible⟩
  · exact ⟨Nat.one_pos, _, List.mem_cons_of_mem _ List.mem_cons_self, visible⟩

/-- What a guard lets through satisfies its condition. -/
theorem eq_some_of_guard_bind
    {condition : Prop}
    [Decidable condition]
    {rest : Option α}
    {value : α}
    (passes : (guard condition >>= fun _ : Unit => rest) = some value) :
    condition ∧ rest = some value := by
  unfold guard at passes
  by_cases holds : condition
  · rw [if_pos holds] at passes
    exact ⟨holds, passes⟩
  · rw [if_neg holds] at passes
    cases passes

namespace LegacyExport

/-- The arguments of a legacy export and what follows them: those of a list, or none. -/
inductive HintRead
    (rest : Text) :
    List Text → Text → Prop
  | listed
      {closeAt : Nat}
      (opens : rest.startsWith ['('] = true)
      (closes : closingIndex rest 0 = some closeAt) :
      HintRead rest (splitArguments ((rest.take closeAt).drop 1))
        (Text.dropIndentation (rest.drop (closeAt + 1)))
  | bare :
      HintRead rest [] rest

/-- What the reading of a legacy export finds, in the order of the code. -/
theorem ofCode?_cases
    {code : Text}
    {legacy : LegacyExport}
    (found : ofCode? code = some legacy) :
    let before := (firstWord code).1 == "onready".toList
    ∃ start tail,
      (if before = true then firstWord (firstWord code).2
        else ((firstWord code).1, (firstWord code).2)) = start ∧
        start.1 = "export".toList ∧
        HintRead start.2.dropIndentation legacy.arguments tail ∧
        legacy.onready = (before || ((firstWord tail).1 == "onready".toList && !before)) ∧
        legacy.declaration =
          (if ((firstWord tail).1 == "onready".toList && !before) = true then
            (firstWord tail).2.dropIndentation
          else tail) ∧
        (firstWord legacy.declaration).1 = "var".toList := by
  intro before
  unfold ofCode? at found
  dsimp only at found
  generalize
    (if ((firstWord code).1 == "onready".toList) = true then firstWord (firstWord code).2
      else ((firstWord code).1, (firstWord code).2)) = start at found ⊢
  obtain ⟨exports, afterWord⟩ := eq_some_of_guard_bind found
  split at afterWord
  · rename_i opens
    obtain ⟨parts, isParts, afterParts⟩ := Option.bind_eq_some_iff.mp afterWord
    obtain ⟨closeAt, closes, rfl⟩ := Option.map_eq_some_iff.mp isParts
    obtain ⟨declares, isLegacy⟩ := eq_some_of_guard_bind afterParts
    obtain rfl := Option.some.inj isLegacy
    exact ⟨start, _, rfl, beq_iff_eq.mp exports, .listed opens closes, rfl, rfl,
      beq_iff_eq.mp declares⟩
  · obtain ⟨declares, isLegacy⟩ := eq_some_of_guard_bind afterWord
    obtain rfl := Option.some.inj isLegacy
    exact ⟨start, _, rfl, beq_iff_eq.mp exports, .bare, rfl, rfl, beq_iff_eq.mp declares⟩

/-- The declaration of a legacy export starts with its keyword. -/
theorem declaration_var
    {code : Text}
    {legacy : LegacyExport}
    (found : ofCode? code = some legacy) :
    (firstWord legacy.declaration).1 = "var".toList := by
  obtain ⟨_, _, _, _, _, _, _, declares⟩ := ofCode?_cases found
  exact declares

end LegacyExport

/--
An exported field keeps its declaration on the line that has its annotation
above, or below its annotation, with the type of the annotation.
-/
theorem upliftExportedField_eq_some
    {above text : Text}
    {replacement : Replacement}
    (matched : upliftExportedField above text = some replacement) :
    let parts := LineParts.ofText text
    ∃ legacy, LegacyExport.ofCode? parts.code = some legacy ∧
      let onready := if legacy.onready then "onready ".toList else []
      let form := ExportForm.ofArguments legacy.arguments
      (replacement = { first := parts.withCode (onready ++ legacy.declaration) } ∨
        replacement =
          { first := parts.indentation ++ form.mark
            others := [parts.withCode (onready ++ withDeclaredType legacy.declaration form.type)] }) := by
  unfold upliftExportedField at matched
  dsimp only at matched
  obtain ⟨legacy, found, shape⟩ := Option.map_eq_some_iff.mp matched
  refine ⟨legacy, found, ?_⟩
  split at shape
  · exact .inl shape.symm
  · exact .inr shape.symm

/-- The declaration of an exported field is kept on the last line. -/
theorem upliftExportedField_spec
    {above text : Text}
    {replacement : Replacement}
    (matched : upliftExportedField above text = some replacement) :
    0 < replacement.count ∧
      ∃ line ∈ replacement.lines, line.isBlank = false := by
  obtain ⟨legacy, found, shape⟩ := upliftExportedField_eq_some matched
  have declares := LegacyExport.declaration_var found
  rcases shape with rfl | rfl
  · refine ⟨Nat.one_pos, _, List.mem_cons_self, LineParts.isBlank_withCode _ ?_⟩
    simp only [Text.isBlank_append, Text.isBlank_eq_false_of_var declares, Bool.and_false]
  · refine ⟨Nat.one_pos, _, List.mem_cons_of_mem _ List.mem_cons_self,
      LineParts.isBlank_withCode _ ?_⟩
    simp only [Text.isBlank_append, isBlank_withDeclaredType declares, Bool.and_false]

namespace UpliftRule

/-- The rules that may put an annotation on a line of its own. -/
def splits : UpliftRule → Bool
  | .exportedField | .deferredInit => true
  | _ => false

/-- A rule that does not split a line leaves one line, with code on it. -/
theorem apply_spec_of_not_splits
    {rule : UpliftRule}
    (whole : rule.splits = false)
    {above text : Text}
    {replacement : Replacement}
    (matched : rule.apply above text = some replacement) :
    replacement.others = [] ∧
      0 < replacement.count ∧
      replacement.first.isBlank = false := by
  cases rule with
  | toolDirective =>
      exact upliftToolDirective_spec matched
  | preloadStutter =>
      exact upliftPreloads_spec matched
  | exportedField =>
      cases whole
  | deferredInit =>
      cases whole
  | connect =>
      exact replaceCalls_spec rebuiltSignalCall?_visible matched
  | disconnect =>
      exact replaceCalls_spec rebuiltSignalCall?_visible matched
  | isConnected =>
      exact replaceCalls_spec rebuiltSignalCall?_visible matched
  | emit =>
      exact replaceCalls_spec emitCall?_visible matched
  | suspension =>
      exact replaceCalls_spec awaitExpression?_visible matched

/-- Every match counts and leaves code. -/
theorem apply_spec
    {rule : UpliftRule}
    {above text : Text}
    {replacement : Replacement}
    (matched : rule.apply above text = some replacement) :
    0 < replacement.count ∧
      ∃ line ∈ replacement.lines, line.isBlank = false := by
  cases splitting : rule.splits with
  | false =>
      obtain ⟨_, counted, visible⟩ := apply_spec_of_not_splits splitting matched
      exact ⟨counted, _, List.mem_cons_self, visible⟩
  | true =>
      cases rule with
      | exportedField =>
          exact upliftExportedField_spec matched
      | deferredInit =>
          exact upliftDeferredInit_spec matched
      | _ =>
          cases splitting

end UpliftRule

end ScriptUplift
