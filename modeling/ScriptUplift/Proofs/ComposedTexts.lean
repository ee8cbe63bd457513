import Mathlib.Data.List.Basic
import Mathlib.Tactic.Common
import ScriptUplift.Proofs.CodeEdits

namespace ScriptUplift

/-!
# Texts that are put together

What rules write is put together from names, from the arguments of a call and
from what parts and surrounds them.  A property that is kept where code is put
together in these ways passes from the arguments to what is written.
-/

open Scanning (isQuiet)

/-- The characters that the scan passes over and that open and close no bracket. -/
def isFlatChar
    (character : Char) :
    Bool :=
  isQuiet character && !isOpeningBracket character && !isClosingBracket character

theorem all_isFlatChar_of_plain
    {text : Text}
    (plain : text.all isPlainChar = true) :
    text.all isFlatChar = true := by
  rw [List.all_eq_true] at plain ⊢
  intro character member
  have own := plain character member
  simp [isFlatChar, Scanning.isQuiet_of_isPlainChar own, isOpeningBracket_of_isPlainChar own,
    isClosingBracket_of_isPlainChar own]

theorem all_isQuiet_of_flat
    {text : Text}
    (flat : text.all isFlatChar = true) :
    text.all isQuiet = true := by
  rw [List.all_eq_true] at flat ⊢
  intro character member
  have own := flat character member
  simp only [isFlatChar, Bool.and_eq_true] at own
  exact own.1.1

theorem all_isFlatChar_of_literal
    {text name : Text}
    (literal : identifierLiteral? text = some name) :
    name.all isFlatChar = true := by
  have named := (identifierLiteral?_eq_some literal).1
  exact all_isFlatChar_of_plain
    (all_isPlainChar_of_word (all_isIdentifierChar_of_isIdentifier named))

/-- A property that is kept where code is put together. -/
structure Compositional
    (holds : Text → Prop) :
    Prop where
  flat {text : Text} :
    text.all isFlatChar = true → holds text
  prepend {front text : Text} :
    front.all isFlatChar = true → holds text → holds (front ++ text)
  append {first second : Text} :
    holds first → holds second → (∀ character ∈ second.head?, isQuiet character = true) →
      holds (first ++ second)
  trim {text : Text} :
    holds text → holds text.trim
  bracketed {inner : Text} :
    holds inner → holds ('(' :: (inner ++ [')']))

namespace Compositional

variable {holds : Text → Prop} (kept : Compositional holds)

include kept

/-- A list in brackets may follow what begins flat. -/
theorem list
    {front inner : Text}
    (flat : front.all isFlatChar = true)
    (innerHolds : holds inner) :
    holds (front ++ '(' :: (inner ++ [')'])) :=
  kept.prepend flat (kept.bracketed innerHolds)

theorem joinWith
    {separator : Text}
    (nonempty : separator ≠ [])
    (flat : separator.all isFlatChar = true)
    {pieces : List Text}
    (each : ∀ piece ∈ pieces, holds piece) :
    holds (Text.joinWith separator pieces) := by
  induction pieces with
  | nil =>
      exact kept.flat rfl
  | cons first others inductionHypothesis =>
      obtain ⟨firstHolds, othersHold⟩ := List.forall_mem_cons.mp each
      cases others with
      | nil =>
          rwa [Text.joinWith_singleton]
      | cons second rest =>
          obtain ⟨mark, marks, rfl⟩ := List.exists_cons_of_ne_nil nonempty
          rw [Text.joinWith_cons_cons]
          refine kept.append firstHolds (kept.prepend flat (inductionHypothesis othersHold)) ?_
          intro character isFirst
          obtain rfl : mark = character := Option.some.inj isFirst
          exact List.all_eq_true.mp (all_isQuiet_of_flat flat) mark List.mem_cons_self

/-- The bound arguments come out of their array. -/
theorem bindSuffix?
    {binds bound : Text}
    (inArray : ∀ inner : Text, binds = '[' :: (inner ++ [']']) → holds inner)
    (isBound : bindSuffix? binds = some bound) :
    holds bound ∧ ∀ character ∈ bound.head?, isQuiet character = true := by
  obtain ⟨inner, isArray, rfl⟩ := bindSuffix?_eq_some isBound
  split
  · exact ⟨kept.flat rfl, nofun⟩
  · have shape : ".bind(".toList ++ inner.trim ++ [')'] =
        ".bind".toList ++ '(' :: (inner.trim ++ [')']) := by
      simp
    rw [shape]
    refine ⟨kept.list (by decide) (kept.trim (inArray inner isArray)), ?_⟩
    intro character isFirst
    obtain rfl : '.' = character := Option.some.inj isFirst
    decide

/-- What a call on a signal is replaced by, if the bound arguments are those of one array. -/
theorem rebuiltSignalCall?
    {method : String}
    (plain : method.toList.all isPlainChar = true)
    {extras : Bool}
    {arguments : List Text}
    (each : ∀ argument ∈ arguments, holds argument)
    (inArray : ∀ inner : Text, arguments[3]? = some ('[' :: (inner ++ [']'])) → holds inner)
    {text : Text}
    (built : rebuiltSignalCall? method extras arguments = some text) :
    holds text := by
  obtain ⟨signalText, target, handlerText, more, signal, handler, bound, rfl, _, isSignal,
    isHandler, isBound, rfl⟩ := rebuiltSignalCall?_eq_some built
  have handlerFlat := all_isFlatChar_of_literal isHandler
  have callable : holds (if target = "self".toList then handler else target ++ ['.'] ++ handler) := by
    split
    · exact kept.flat handlerFlat
    · rw [List.append_assoc]
      refine kept.append (each target (by simp)) (kept.flat ?_) ?_
      · rw [List.all_append, handlerFlat]
        rfl
      · intro character isFirst
        obtain rfl : '.' = character := Option.some.inj isFirst
        decide
  have boundHolds : holds bound ∧ ∀ character ∈ bound.head?, isQuiet character = true := by
    cases more with
    | nil =>
        obtain rfl := Option.some.inj isBound
        exact ⟨kept.flat rfl, nofun⟩
    | cons binds _ =>
        exact kept.bindSuffix? (fun inner isArray => inArray inner (by simp [isArray])) isBound
  have flags : holds ((more[1]?.map (", ".toList ++ ·)).getD []) ∧
      ∀ character ∈ ((more[1]?.map (", ".toList ++ ·)).getD []).head?, isQuiet character = true := by
    cases isFlag : more[1]? with
    | none =>
        exact ⟨kept.flat rfl, nofun⟩
    | some flag =>
        have inArguments : flag ∈ signalText :: target :: handlerText :: more := by
          simp [List.mem_of_getElem? isFlag]
        refine ⟨kept.prepend (by decide) (each flag inArguments), ?_⟩
        intro character isFirst
        obtain rfl : ',' = character := Option.some.inj isFirst
        decide
  have front : (signal ++ '.' :: method.toList).all isFlatChar = true := by
    rw [List.all_append, all_isFlatChar_of_literal isSignal, List.all_cons,
      all_isFlatChar_of_plain plain]
    rfl
  have inner := kept.append (kept.append callable boundHolds.1 boundHolds.2) flags.1 flags.2
  simpa only [List.append_assoc, List.cons_append, List.nil_append] using kept.list front inner

theorem emitCall?
    {arguments : List Text}
    (each : ∀ argument ∈ arguments, holds argument)
    {text : Text}
    (built : emitCall? arguments = some text) :
    holds text := by
  obtain ⟨signalText, values, signal, rfl, isSignal, rfl⟩ := emitCall?_eq_some built
  have front : (signal ++ ".emit".toList).all isFlatChar = true := by
    rw [List.all_append, all_isFlatChar_of_literal isSignal]
    rfl
  have shape : signal ++ ".emit(".toList ++ Text.joinWith ", ".toList values ++ [')'] =
      (signal ++ ".emit".toList) ++ '(' :: (Text.joinWith ", ".toList values ++ [')']) := by
    simp
  rw [shape]
  exact kept.list front (kept.joinWith (by simp) (by decide)
    fun value member => each value (List.mem_cons_of_mem _ member))

theorem awaited
    {arguments : List Text}
    (each : ∀ argument ∈ arguments, holds argument)
    {awaited : Text}
    (names : Awaited arguments awaited) :
    holds awaited := by
  cases names with
  | expression | completed =>
      exact each _ List.mem_cons_self
  | own isSignal =>
      exact kept.flat (all_isFlatChar_of_literal isSignal)
  | signal object isSignal =>
      refine kept.append (each object List.mem_cons_self) (kept.flat ?_) ?_
      · rw [List.all_cons, all_isFlatChar_of_literal isSignal]
        rfl
      · intro character isFirst
        obtain rfl : '.' = character := Option.some.inj isFirst
        decide

theorem awaitExpression?
    {arguments : List Text}
    (each : ∀ argument ∈ arguments, holds argument)
    {text : Text}
    (built : awaitExpression? arguments = some text) :
    holds text := by
  have word : "await ".toList.all isFlatChar = true := by
    decide
  obtain ⟨awaited, names, rfl⟩ := awaitExpression?_eq_some built
  exact kept.prepend word (kept.awaited each names)

/-- An annotation that is made of arguments. -/
theorem mark
    {arguments : List Text}
    (each : ∀ argument ∈ arguments, holds argument)
    (constants : ∀ constant ∈ ExportForm.markConstants, holds constant)
    {mark : Text}
    (isMark : ExportForm.IsMark arguments mark) :
    holds mark := by
  cases isMark with
  | bare named =>
      exact kept.flat (all_isFlatChar_of_plain named.plain)
  | @list name elements named taken =>
      have shape : ExportForm.withArguments name elements =
          name.toList ++ '(' :: (Text.joinWith ", ".toList elements ++ [')']) := by
        simp [ExportForm.withArguments]
      rw [shape]
      exact kept.list (all_isFlatChar_of_plain named.plain) (kept.joinWith (by simp) (by decide)
        fun element member => (taken element member).elim (each element) (constants element))

end Compositional

end ScriptUplift
