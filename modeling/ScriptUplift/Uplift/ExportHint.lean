import ScriptUplift.Uplift.Numeral
import ScriptUplift.Script.Call

namespace ScriptUplift

/-!
# Export hints

The legacy `export(...)` keyword takes a type and hints.  They map to one of the
newer export annotations and, where the hint pins it down, to the type of the
declaration.  Hints that are not understood give a bare annotation.
-/

/-- The annotation an export hint maps to and the type it pins down; empty when it pins none. -/
structure ExportForm where
  mark : Text
  type : Text
  deriving Repr, DecidableEq

namespace ExportForm

/-- An export without hints. -/
def bare : ExportForm :=
  ⟨"@export".toList, []⟩

/-- The types that exist under the same name on both sides of the migration. -/
def stableTypes : List Text :=
  ["int", "float", "bool", "String", "Vector2", "Vector3", "Color", "NodePath",
   "Array", "Dictionary", "Rect2", "Transform2D", "Basis", "Plane",
   "AABB"].map String.toList

/-- The annotations of the layer hints. -/
def layerMarks : List (Text × Text) :=
  [("LAYERS_2D_RENDER", "@export_flags_2d_render"),
   ("LAYERS_2D_PHYSICS", "@export_flags_2d_physics"),
   ("LAYERS_3D_RENDER", "@export_flags_3d_render"),
   ("LAYERS_3D_PHYSICS", "@export_flags_3d_physics")].map fun pair =>
    (pair.1.toList, pair.2.toList)

/-- Write an annotation with arguments. -/
def withArguments
    (name : String)
    (arguments : List Text) :
    Text :=
  name.toList ++ ['('] ++ Text.joinWith ", ".toList arguments ++ [')']

/-- Whether every hint is a string literal. -/
def areStringLiterals
    (hints : List Text) :
    Bool :=
  hints.all fun hint => (stringLiteral? hint).isSome

/-- The range of numeric hints: a maximum, or bounds with an optional step. -/
def rangeMark?
    (hints : List Text) :
    Option Text :=
  if 3 < hints.length || !hints.all isNumeral then
    none
  else if hints.length = 1 then
    some (withArguments "@export_range" (['0'] :: hints))
  else
    some (withArguments "@export_range" hints)

/-- The exponential range of a float hint. -/
def exponentialMark?
    (bounds : List Text) :
    Option Text :=
  if bounds.length < 2 || 3 < bounds.length || !bounds.all isNumeral then
    none
  else
    some (withArguments "@export_range" (bounds ++ ["\"exp\"".toList]))

/-- The annotation of a float hint. -/
def floatMark?
    (hints : List Text) :
    Option Text :=
  if hints.head? = some "EASE".toList then
    if hints.length = 1 then some "@export_exp_easing".toList else none
  else if hints.head? = some "EXP".toList then
    exponentialMark? hints.tail
  else
    rangeMark? hints

/-- The annotation of a choice between strings. -/
def choiceMark?
    (hints : List Text) :
    Option Text :=
  if areStringLiterals hints then some (withArguments "@export_enum" hints) else none

/-- The annotation of an integer hint. -/
def intMark?
    (hints : List Text) :
    Option Text :=
  match rangeMark? hints with
  | some mark =>
      some mark
  | none =>
      if hints.head? = some "FLAGS".toList && areStringLiterals hints.tail && !hints.tail.isEmpty then
        some (withArguments "@export_flags" hints.tail)
      else
        match hints with
        | [hint] =>
            match layerMarks.lookup hint with
            | some mark =>
                some mark
            | none =>
                choiceMark? hints
        | _ =>
            choiceMark? hints

/-- The annotation of a path hint, with the file filters it carries. -/
def pathMark?
    (kind : String)
    (filters : List Text) :
    Option Text :=
  let global := filters.head? = some "GLOBAL".toList
  let name := (if global then "@export_global_" else "@export_") ++ kind
  let patterns := if global then filters.tail else filters
  if !areStringLiterals patterns then none
  else if patterns.isEmpty then some name.toList
  else some (withArguments name patterns)

/-- The annotation of a string hint. -/
def stringMark?
    (hints : List Text) :
    Option Text :=
  if hints.head? = some "FILE".toList then
    pathMark? "file" hints.tail
  else if hints.head? = some "DIR".toList then
    pathMark? "dir" hints.tail
  else if hints.head? = some "MULTILINE".toList then
    if hints.length = 1 then some "@export_multiline".toList else none
  else
    choiceMark? hints

/-- The annotation of a colour hint. -/
def colorMark?
    (hints : List Text) :
    Option Text :=
  if hints = ["RGB".toList] then some "@export_color_no_alpha".toList else none

/-- The annotation that the hints after a type map to. -/
def hintMark?
    (type : Text)
    (hints : List Text) :
    Option Text :=
  if type = "int".toList then intMark? hints
  else if type = "float".toList then floatMark? hints
  else if type = "String".toList then stringMark? hints
  else if type = "Color".toList then colorMark? hints
  else none

/-- Map the arguments of a legacy export to an annotation and a type. -/
def ofArguments : List Text → ExportForm
  | [] =>
      bare
  | [type] =>
      if stableTypes.contains type then { bare with type := type } else bare
  | type :: hints =>
      match hintMark? type hints with
      | some mark =>
          ⟨mark, type⟩
      | none =>
          bare

end ExportForm

/-- Add a type after the declared name, unless the declaration already has or infers one. -/
def withDeclaredType
    (declaration type : Text) :
    Text :=
  if type = [] then
    declaration
  else
    let (name, rest) := firstWord (firstWord declaration).2
    if name = [] || rest.dropIndentation.startsWith [':'] then
      declaration
    else
      "var ".toList ++ name ++ ": ".toList ++ type ++ rest

end ScriptUplift
