import ScriptUplift.Uplift.ExportHint

namespace ScriptUplift

/-!
# Uplift rules

A rule replaces one deprecated form on one line.  It sees the line and the line
above it, and answers with the lines that replace it and the number of
replacements made, or with nothing when the line does not match.
-/

/-- The indentation, code and comment of a line; the code keeps its trailing blanks. -/
structure LineParts where
  indentation : Text
  code : Text
  comment : Text
  deriving Repr, DecidableEq

namespace LineParts

/-- Take a line apart. -/
def ofText
    (text : Text) :
    LineParts :=
  let scan := Scan.line none text
  ⟨scan.code.indentation, scan.code.dropIndentation, scan.comment⟩

/-- Put a line together around other code. -/
def withCode
    (parts : LineParts)
    (code : Text) :
    Text :=
  parts.indentation ++ code ++ parts.comment

/-- The spaces and tabs at the end of the code. -/
def trailing
    (parts : LineParts) :
    Text :=
  parts.code.drop parts.code.dropEndIndentation.length

end LineParts

/-- The lines that replace a line, at least one, and the number of replacements made. -/
structure Replacement where
  first : Text
  others : List Text := []
  count : Nat := 1
  deriving Repr, DecidableEq

/-- All lines of a replacement. -/
def Replacement.lines
    (replacement : Replacement) :
    List Text :=
  replacement.first :: replacement.others

/-- The uplift rules. -/
inductive UpliftRule
  | toolDirective
  | preloadStutter
  | exportedField
  | deferredInit
  | connect
  | disconnect
  | isConnected
  | emit
  | suspension
  deriving Repr, DecidableEq

/-- At most so many calls are replaced on one line. -/
def maxCallsPerLine : Nat :=
  32

/-- Whether a text is a word, repeated a number of times, and then a tail. -/
def repeatsBefore
    (word tail : Text) :
    Nat → Text → Bool
  | 0, text =>
      text == tail
  | times + 1, text =>
      match text.afterHead? word with
      | some rest =>
          repeatsBefore word tail times rest
      | none =>
          false

/-- Whether a name is `preload` with its first syllable stuttered at least once. -/
def isRepeatedPreload
    (name : Text) :
    Bool :=
  (List.range name.length).any fun times =>
    repeatsBefore "pre".toList "preload".toList (times + 1) name

/-- Whether a line is exactly one annotation whose name satisfies a condition. -/
def isBareAnnotationLine
    (name? : Text → Bool)
    (text : Text) :
    Bool :=
  match (LineParts.ofText text).code.trim with
  | '@' :: named =>
      let (name, after) := firstWord named
      let rest := after.trim
      name? name &&
        if rest.startsWith ['('] then
          closingIndex rest 0 == some (rest.length - 1)
        else
          rest.isEmpty
  | _ =>
      false

/--
Replace calls one at a time, at most as many as the first argument says.  The
first call at or after the given rank for which a replacement can be built is
replaced, until there is none.
-/
def replaceCallsFrom
    (callee : Text)
    (build : List Text → Option Text) :
    Nat → Nat → Text → Text × Nat
  | 0, _, code =>
      (code, 0)
  | limit + 1, rank, code =>
      let calls := (Call.findAll (· == callee) code).drop rank
      let found := calls.map fun call =>
        (build (call.arguments code)).map fun text => (call, text)
      match found.findIdx? Option.isSome, found.findSome? id with
      | some skipped, some (call, text) =>
          let (result, count) :=
            replaceCallsFrom callee build limit (rank + skipped)
              (code.take call.start ++ text ++ code.drop (call.closeAt + 1))
          (result, count + 1)
      | _, _ =>
          (code, 0)

/-- Replace the calls of one name on a line. -/
def replaceCalls
    (callee : String)
    (build : List Text → Option Text)
    (text : Text) :
    Option Replacement :=
  let parts := LineParts.ofText text
  let (code, count) := replaceCallsFrom callee.toList build maxCallsPerLine 0 parts.code
  if count = 0 then none else some { first := parts.withCode code, count := count }

/-- The identifier a string literal holds. -/
def identifierLiteral?
    (text : Text) :
    Option Text :=
  (stringLiteral? text).filter isIdentifier

/-- What binds an array literal of arguments to a callable; nothing for an empty one. -/
def bindSuffix?
    (binds : Text) :
    Option Text :=
  if binds.startsWith ['['] && binds.endsWith [']'] then
    let inner := Text.trim (binds.drop 1).dropLast
    some (if inner = [] then [] else ".bind(".toList ++ inner ++ [')'])
  else
    none

/--
The newer form of `method(signal, target, handler)`; only a connection may carry
bound arguments and flags after the handler.
-/
def rebuiltSignalCall?
    (method : String)
    (extras : Bool)
    (arguments : List Text) :
    Option Text :=
  match arguments with
  | signalText :: target :: handlerText :: more =>
      if (!extras && !more.isEmpty) || 2 < more.length then
        none
      else do
        let signal ← identifierLiteral? signalText
        let handler ← identifierLiteral? handlerText
        let bound ← (more.head?.map bindSuffix?).getD (some [])
        let callable := if target = "self".toList then handler else target ++ ['.'] ++ handler
        let flags := (more[1]?.map (", ".toList ++ ·)).getD []
        some (signal ++ ['.'] ++ method.toList ++ ['('] ++ callable ++ bound ++ flags ++ [')'])
  | _ =>
      none

/-- The newer form of an emitted signal. -/
def emitCall?
    (arguments : List Text) :
    Option Text :=
  match arguments with
  | signalText :: values =>
      (identifierLiteral? signalText).map fun signal =>
        signal ++ ".emit(".toList ++ Text.joinWith ", ".toList values ++ [')']
  | [] =>
      none

/-- The newer form of a suspension. -/
def awaitExpression?
    (arguments : List Text) :
    Option Text :=
  match arguments with
  | [awaited] =>
      some ("await ".toList ++ awaited)
  | [object, signalText] =>
      (identifierLiteral? signalText).map fun signal =>
        if signal = "completed".toList then "await ".toList ++ object
        else if object = "self".toList then "await ".toList ++ signal
        else "await ".toList ++ object ++ ['.'] ++ signal
  | _ =>
      none

/-- Replace the bare word `tool`. -/
def upliftToolDirective
    (text : Text) :
    Option Replacement :=
  let parts := LineParts.ofText text
  if parts.code.trim = "tool".toList then
    some { first := parts.withCode ("@tool".toList ++ parts.trailing) }
  else
    none

/-- Collapse the stuttered callees of a line, the last one first. -/
def upliftPreloads
    (text : Text) :
    Option Replacement :=
  let parts := LineParts.ofText text
  let calls := Call.findAll isRepeatedPreload parts.code
  if calls.isEmpty then
    none
  else
    let code := calls.foldr
      (fun call code =>
        code.take call.start ++ "preload".toList ++
          code.drop (call.start + call.name.length))
      parts.code
    some { first := parts.withCode code, count := calls.length }

/-- Move the word `onready` of a field to an annotation of its own line. -/
def upliftDeferredInit
    (above text : Text) :
    Option Replacement :=
  let parts := LineParts.ofText text
  let (word, after) := firstWord parts.code
  let declaration := after.dropIndentation
  if word = "onready".toList && (firstWord declaration).1 == "var".toList then
    if isBareAnnotationLine (· == "onready".toList) above then
      some { first := parts.withCode declaration }
    else
      some
        { first := parts.indentation ++ "@onready".toList
          others := [parts.withCode declaration] }
  else
    none

/-- A legacy exported field: its hint arguments and its declaration. -/
structure LegacyExport where
  arguments : List Text
  onready : Bool
  declaration : Text
  deriving Repr, DecidableEq

/--
Read a legacy exported field.  The word `onready` may stand before or after the
export.
-/
def LegacyExport.ofCode?
    (code : Text) :
    Option LegacyExport := do
  let (first, afterFirst) := firstWord code
  let onreadyBefore := first == "onready".toList
  let (word, after) := if onreadyBefore then firstWord afterFirst else (first, afterFirst)
  guard (word == "export".toList)
  let rest := after.dropIndentation
  let (arguments, tail) ←
    if rest.startsWith ['('] then
      (closingIndex rest 0).map fun closeAt =>
        (splitArguments ((rest.take closeAt).drop 1),
         Text.dropIndentation (rest.drop (closeAt + 1)))
    else
      some ([], rest)
  let (next, afterNext) := firstWord tail
  let onreadyAfter := next == "onready".toList && !onreadyBefore
  let declaration := if onreadyAfter then afterNext.dropIndentation else tail
  guard ((firstWord declaration).1 == "var".toList)
  some ⟨arguments, onreadyBefore || onreadyAfter, declaration⟩

/--
Move a legacy export to an annotation of its own line.  The word `onready` stays
on the declaration.
-/
def upliftExportedField
    (above text : Text) :
    Option Replacement :=
  let parts := LineParts.ofText text
  (LegacyExport.ofCode? parts.code).map fun legacy =>
    let onready := if legacy.onready then "onready ".toList else []
    if isBareAnnotationLine (·.startsWith "export".toList) above then
      { first := parts.withCode (onready ++ legacy.declaration) }
    else
      let form := ExportForm.ofArguments legacy.arguments
      { first := parts.indentation ++ form.mark
        others := [parts.withCode (onready ++ withDeclaredType legacy.declaration form.type)] }

namespace UpliftRule

/-- Every rule, in the order of application. -/
def all : List UpliftRule :=
  [.toolDirective, .preloadStutter, .exportedField, .deferredInit, .connect, .disconnect,
   .isConnected, .emit, .suspension]

/-- The name of a rule, under which its replacements are counted. -/
def name : UpliftRule → String
  | .toolDirective => "tool_directive_rewrite"
  | .preloadStutter => "preload_prefix_rewrite"
  | .exportedField => "exported_field_rewrite"
  | .deferredInit => "deferred_init_rewrite"
  | .connect => "signal_connect_rewrite"
  | .disconnect => "signal_disconnect_rewrite"
  | .isConnected => "signal_is_connected_rewrite"
  | .emit => "signal_emit_rewrite"
  | .suspension => "suspension_rewrite"

/-- Find a rule by its name. -/
def ofName?
    (name : String) :
    Option UpliftRule :=
  all.find? (·.name == name)

/-- Apply a rule to a line, given the line above it. -/
def apply
    (rule : UpliftRule)
    (above text : Text) :
    Option Replacement :=
  match rule with
  | .toolDirective => upliftToolDirective text
  | .preloadStutter => upliftPreloads text
  | .exportedField => upliftExportedField above text
  | .deferredInit => upliftDeferredInit above text
  | .connect => replaceCalls "connect" (rebuiltSignalCall? "connect" true) text
  | .disconnect => replaceCalls "disconnect" (rebuiltSignalCall? "disconnect" false) text
  | .isConnected => replaceCalls "is_connected" (rebuiltSignalCall? "is_connected" false) text
  | .emit => replaceCalls "emit_signal" emitCall? text
  | .suspension => replaceCalls "yield" awaitExpression? text

/-- The rules that remain when the named ones are switched off. -/
def enabled
    (disabled : List String) :
    List UpliftRule :=
  all.filter fun rule => !disabled.contains rule.name

end UpliftRule

end ScriptUplift
