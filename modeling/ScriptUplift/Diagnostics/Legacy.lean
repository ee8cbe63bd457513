import ScriptUplift.Category
import ScriptUplift.Diagnostics.Record
import ScriptUplift.Script.Call

namespace ScriptUplift

/-!
# Leftovers of the old dialect

The legacy check flags old constructs that no rule could replace.  It reads code
only: comments and the contents of strings do not matter.
-/

namespace Legacy

/-- The callees of the old dialect. -/
def isCallee
    (name : Text) :
    Bool :=
  ["emit_signal", "yield", "connect", "disconnect", "is_connected"].any
    (·.toList == name)

/-- The code and message of the finding about a call. -/
def callFinding?
    (code : Text)
    (call : Call) :
    Option (String × String) :=
  if call.name = "emit_signal".toList then
    some ("legacy_emit_signal",
      "emit_signal with a non-literal signal name was left in place")
  else if call.name = "yield".toList then
    some ("legacy_yield", "yield could not be translated to await")
  else if ((call.arguments code).head?.bind stringLiteral?).isSome then
    some ("legacy_connect",
      String.ofList call.name ++ " with a signal name string was left in place")
  else
    none

/-- The finding about an accessor clause of the old dialect. -/
def accessorFinding?
    (code : Text) :
    Option (String × String) :=
  if (identifiers code).any (·.text == "setget".toList) then
    some ("legacy_setget", "setget has no direct equivalent; use property accessors")
  else
    none

/-- The finding about a field keyword of the old dialect. -/
def fieldFinding?
    (code : Text) :
    Option (String × String) :=
  let (word, after) := firstWord code
  let rest := after.trim
  let next := (firstWord rest).1
  if (word = "export".toList || word = "onready".toList) &&
      (rest.isEmpty || rest.startsWith ['('] ||
        ["var", "export", "onready"].any (·.toList == next)) then
    some ("legacy_export", "legacy " ++ String.ofList word ++ " keyword was left in place")
  else
    none

/-- The findings about the code of a line: calls first, then an accessor, then a field. -/
def codeFindings
    (code : Text) :
    List (String × String) :=
  (Call.findAll isCallee code).filterMap (callFinding? code) ++
    (accessorFinding? code).toList ++ (fieldFinding? code).toList

/-- The record of a finding. -/
def record
    (file : String)
    (number : Nat)
    (finding : String × String) :
    Record where
  file := file
  line := Record.lineOf number
  severity := .info
  code := finding.1
  message := finding.2

/--
Check lines from a number on, the first of which begins inside the given string.
Lines beyond the known categories count as code.
-/
def checkFrom
    (file : String) :
    Nat → Option Delimiter → List Text → List Category → List Record
  | _, _, [], _ =>
      []
  | number, openString, text :: rest, categories =>
      let scan := Scan.line openString text
      let code := scan.code.trim
      let own :=
        if categories.head?.any (·.isTrivia) then []
        else (codeFindings code).map (record file number)
      own ++ checkFrom file (number + 1) scan.openString rest categories.tail

/-- Flag the constructs of the old dialect in the lines of a file. -/
def check
    (file : String)
    (lines : List Text)
    (categories : List Category) :
    List Record :=
  checkFrom file 1 none lines categories

end Legacy

end ScriptUplift
