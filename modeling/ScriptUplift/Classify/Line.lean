import ScriptUplift.Category
import ScriptUplift.Classify.Annotations
import ScriptUplift.Indent.Unit

namespace ScriptUplift

/-!
# Classifying one line

The classifier sees a line and a bounded context: the indentation unit, the
category of the statement before it, whether that statement opened a block and
whether it held annotations only.  Whatever it does not recognise is `other`.
-/

/-- What the classifier knows about the statement before a line. -/
structure Context where
  unit : IndentUnit
  previous : Category := .other
  /-- The previous statement ended in a colon. -/
  previousOpens : Bool := false
  /-- The previous line held annotations only. -/
  previousAnnotationOnly : Bool := false
  deriving Repr, DecidableEq

namespace Context

/--
The previous statement leaves the reader at class scope, so that an indented
declaration is a misplaced member and not a local.
-/
def atClassLevel
    (context : Context) :
    Bool :=
  context.previous.isClassLevel && !context.previousOpens

/-- The kind of the annotation on the lines above, for a line without annotations of its own. -/
def pendingKind
    (context : Context) :
    AnnotationKind :=
  if context.previousAnnotationOnly then
    match context.previous with
    | .exportedField => .exported
    | .deferredInitField => .onready
    | _ => .absent
  else
    .absent

end Context

/-- The methods the engine calls by itself. -/
def lifecycleNames : List Text :=
  ["_init", "_ready", "_process", "_physics_process", "_input", "_unhandled_input",
   "_unhandled_key_input", "_shortcut_input", "_enter_tree", "_exit_tree",
   "_notification", "_draw", "_gui_input", "_integrate_forces", "_to_string",
   "_static_init", "_get", "_set", "_get_property_list",
   "_get_configuration_warnings"].map String.toList

/-- Whether a name is a method the engine calls by itself. -/
def isLifecycleName
    (name : Text) :
    Bool :=
  lifecycleNames.contains name

/-- The words that start a control flow statement. -/
def controlFlowWords : List Text :=
  ["if", "elif", "else", "for", "while", "match", "return", "break", "continue",
   "pass", "breakpoint"].map String.toList

/-- The network modifiers that may stand before a field or a method. -/
def networkModifiers : List Text :=
  ["remote", "master", "puppet", "remotesync", "mastersync", "puppetsync",
   "sync"].map String.toList

namespace Category

/-- The category of a field declaration, given the text after its keyword. -/
def ofField
    (context : Context)
    (depth : Nat)
    (kind : AnnotationKind)
    (after : Text) :
    Category :=
  if context.previousOpens then
    .other
  else if 0 < depth && !context.atClassLevel && kind == .absent then
    .other
  else
    match kind with
    | .exported =>
        .exportedField
    | .onready =>
        .deferredInitField
    | _ =>
        if (firstWord after).1.startsWith ['_'] then .privateField else .publicField

/-- The category of a method header, given the text after its keyword; a lambda is none. -/
def ofMethod
    (after : Text) :
    Category :=
  let name := (firstWord after).1
  if name = [] then .other
  else if isLifecycleName name then .lifecycleMethod
  else if name.startsWith ['_'] then .privateMethod
  else .publicMethod

/-- Whether the text after the word `export` makes the line a legacy exported field. -/
def exportsField
    (after : Text) :
    Bool :=
  let rest := after.trim
  rest.isEmpty || rest.startsWith ['('] || rest.startsWith "var ".toList ||
    rest.startsWith "onready ".toList

/--
The category of code by its first word, skipping at most as many modifiers as
the first argument says.
-/
def ofKeywordWithin
    (context : Context)
    (depth : Nat)
    (kind : AnnotationKind) :
    Nat → Text → Category
  | 0, _ =>
      .other
  | limit + 1, code =>
      let (word, after) := firstWord code
      if word = "tool".toList then
        if after.isBlank then .classHeader else .other
      else if word = "class_name".toList ∨ word = "extends".toList then
        .classHeader
      else if word = "signal".toList then
        .signal
      else if word = "enum".toList then
        .enumeration
      else if word = "const".toList then
        if 0 < depth && !context.atClassLevel then .other else .constant
      else if word = "export".toList then
        if exportsField after then .exportedField else .other
      else if word = "onready".toList then
        let rest := after.trim
        if rest.startsWith "var".toList then .deferredInitField
        else if (firstWord rest).1 = "export".toList then .exportedField
        else .other
      else if word = "static".toList then
        ofKeywordWithin context depth kind limit after.trim
      else if word = "var".toList then
        ofField context depth kind after
      else if word = "func".toList then
        ofMethod after
      else if networkModifiers.contains word then
        let next := (firstWord after).1
        if next = "func".toList ∨ next = "var".toList then
          ofKeywordWithin context depth kind limit after.trim
        else
          .other
      else if controlFlowWords.contains word then
        .controlFlow
      else
        .other

/-- The category of code by its first word. -/
def ofKeyword
    (context : Context)
    (depth : Nat)
    (kind : AnnotationKind)
    (code : Text) :
    Category :=
  ofKeywordWithin context depth kind code.length code

end Category

/-- Whether code is one string literal and nothing else, which reads as a comment. -/
def isStringOnly
    (code : Text) :
    Bool :=
  match code with
  | mark :: rest =>
      if isQuoteMark mark then
        let delimiter := [mark, mark, mark]
        if code.startsWith delimiter then
          let body := rest.drop 2
          match Text.indexOf? delimiter body with
          | none =>
              true
          | some stop =>
              Text.isBlank (body.drop (stop + 3))
        else
          (stringLiteral? code).isSome
      else
        false
  | [] =>
      false

/-- The category of a line of annotations only, and whether it is one. -/
def classifyAnnotations
    (context : Context)
    (kind : AnnotationKind) :
    Category × Bool :=
  match kind with
  | .header =>
      (.classHeader, false)
  | .exported =>
      (.exportedField, true)
  | _ =>
      if context.pendingKind = .exported then (.exportedField, true)
      else if kind = .onready ∨ context.pendingKind = .onready then (.deferredInitField, true)
      else (.other, true)

/-- The category of a line and whether it holds annotations only. -/
def classify
    (context : Context)
    (text : Text) :
    Category × Bool :=
  if text.isBlank then
    (.blank, false)
  else
    let code := (Scan.line none text).code.trim
    if code.isEmpty || isStringOnly code then
      (.comment, false)
    else
      let peeled := Peeled.ofCode code
      if peeled.found && peeled.rest.isEmpty then
        classifyAnnotations context peeled.kind
      else
        let kind := if peeled.found then peeled.kind else context.pendingKind
        (Category.ofKeyword context (context.unit.depth text) kind peeled.rest, false)

/-- Whether code declares a nested class. -/
def isInnerClassHeader
    (code : Text) :
    Bool :=
  (firstWord code.trim).1 = "class".toList && opensBlock code

end ScriptUplift
