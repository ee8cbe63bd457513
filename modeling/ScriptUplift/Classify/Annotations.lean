import ScriptUplift.Script.Call

namespace ScriptUplift

/-!
# Annotations in front of a declaration

Annotations are peeled off the front of a line's code one by one.  Only the
strongest of them matters to the classification.
-/

/-- What an annotation says about the declaration after it, weakest first. -/
inductive AnnotationKind
  | absent
  | plain
  | onready
  | exported
  | header
  deriving Repr, DecidableEq

namespace AnnotationKind

/-- The strength by which annotations are compared. -/
def strength : AnnotationKind → Nat
  | .absent => 0
  | .plain => 1
  | .onready => 2
  | .exported => 3
  | .header => 4

/-- The stronger of two annotations. -/
def stronger
    (first second : AnnotationKind) :
    AnnotationKind :=
  if first.strength < second.strength then second else first

/-- The names of the annotations that stand for a whole script. -/
def headerNames : List Text :=
  ["tool", "icon", "static_unload"].map String.toList

/-- The kind of an annotation by its name. -/
def ofName
    (name : Text) :
    AnnotationKind :=
  if headerNames.contains name then .header
  else if name.startsWith "export".toList then .exported
  else if name = "onready".toList then .onready
  else .plain

end AnnotationKind

/-- Code without the annotations in front of it. -/
structure Peeled where
  kind : AnnotationKind
  rest : Text
  /-- At least one annotation stood in front. -/
  found : Bool
  deriving Repr, DecidableEq

namespace Peeled

/--
Peel annotations off code, at most as many as the first argument says.  An
argument list that is not closed on the line takes the rest of the code.
-/
def within : Nat → AnnotationKind → Bool → Text → Peeled
  | 0, kind, found, code =>
      ⟨kind, code, found⟩
  | limit + 1, kind, found, code =>
      match code.afterHead? ['@'] with
      | none =>
          ⟨kind, code, found⟩
      | some named =>
          let (name, rest) := firstWord named
          if name = [] then
            ⟨kind, code, found⟩
          else
            let stronger := kind.stronger (.ofName name)
            if rest.startsWith ['('] then
              match closingIndex rest 0 with
              | none =>
                  ⟨kind, [], true⟩
              | some closeAt =>
                  within limit stronger true (Text.trim (rest.drop (closeAt + 1)))
            else
              within limit stronger true rest.trim

/-- Peel every annotation off the front of trimmed code. -/
def ofCode
    (code : Text) :
    Peeled :=
  within code.length .absent false code

end Peeled

end ScriptUplift
