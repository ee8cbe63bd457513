import ScriptUplift.Category
import ScriptUplift.Indent.Unit
import ScriptUplift.Report

namespace ScriptUplift

/-!
# Script files

A script file is a list of lines with what is known about each of them, and
what is needed to write the file back: its line ending, its byte order mark
and whether it ends in a line break.
-/

/-- What encloses a line after block repair. -/
inductive Scope
  | file
  | method
  /-- Inside an inner class, outside its methods. -/
  | innerClass
  /-- Inside a block that was opened outside any method. -/
  | block
  deriving Repr, DecidableEq

/-- The number a scope is reported under. -/
def Scope.number : Scope → Nat
  | .file => 0
  | .method => 1
  | .innerClass => 2
  | .block => 3

/-- One physical line of a script. -/
structure Line where
  /-- The position in the input, counted from 1; 0 for a line that was made up. -/
  number : Nat := 0
  /-- The text the line was read with. -/
  source : Text := []
  text : Text := []
  depth : Nat := 0
  category : Category := .other
  /-- The line continues a bracket, a backslash or a multiline string from above. -/
  continues : Bool := false
  /-- The line begins inside a multiline string. -/
  inString : Bool := false
  /-- The line is the first of a statement that ends in a colon. -/
  opens : Bool := false
  /-- The line holds annotations and nothing else. -/
  annotationOnly : Bool := false
  scope : Scope := .file
  deriving Repr, DecidableEq

namespace Line

/-- A line read from a file, before anything is known about it. -/
def ofText
    (number : Nat)
    (text : Text) :
    Line :=
  { number := number, source := text, text := text }

/-- Whether a line starts a statement: it carries code and continues nothing. -/
def isStatement
    (line : Line) :
    Bool :=
  !line.continues && !line.category.isTrivia

/-- A blank line outside any statement. -/
def isBlank
    (line : Line) :
    Bool :=
  !line.continues && line.text.isBlank

end Line

/-- One script on its way through the stages. -/
structure Source where
  path : String
  lines : List Line := []
  report : Report := {}
  unit : IndentUnit := .unsettled
  /-- Names declared only by commented-out code, with the number of the declaring line. -/
  suppressed : List (Text × Nat) := []
  trailingNewline : Bool := false
  crlf : Bool := false
  byteOrderMark : Bool := false
  deriving Repr, DecidableEq

namespace Source

/-- The character a file may begin with to tell its encoding. -/
def byteOrderMarkChar : Char :=
  '\ufeff'

/-- Replace every carriage return that is followed by a line feed. -/
def joinLineEndings : Text → Text
  | '\r' :: '\n' :: rest =>
      '\n' :: joinLineEndings rest
  | character :: rest =>
      character :: joinLineEndings rest
  | [] =>
      []

/-- Whether a carriage return followed by a line feed occurs. -/
def hasPairedEnding : Text → Bool
  | '\r' :: '\n' :: _ =>
      true
  | _ :: rest =>
      hasPairedEnding rest
  | [] =>
      false

/-- Number lines from the given number on. -/
def numberLines : Nat → List Text → List Line
  | _, [] =>
      []
  | number, text :: rest =>
      Line.ofText number text :: numberLines (number + 1) rest

/-- Cut content into lines. -/
def ofContent
    (path : String)
    (content : Text) :
    Source :=
  let marked := content.startsWith [byteOrderMarkChar]
  let unmarked := if marked then content.drop 1 else content
  let paired := hasPairedEnding unmarked
  let body := if paired then joinLineEndings unmarked else unmarked
  let ended := body.endsWith ['\n']
  { path := path
    lines :=
      if body = [] then []
      else numberLines 1 (Text.splitAt '\n' (if ended then body.dropLast else body))
    trailingNewline := ended
    crlf := paired
    byteOrderMark := marked }

/-- The current text of every line. -/
def texts
    (source : Source) :
    List Text :=
  source.lines.map (·.text)

/-- The category of every line. -/
def categories
    (source : Source) :
    List Category :=
  source.lines.map (·.category)

/-- The line break a file is written with. -/
def lineBreak
    (source : Source) :
    Text :=
  if source.crlf then ['\r', '\n'] else ['\n']

/-- Join the lines back into file content. -/
def render
    (source : Source) :
    Text :=
  let body :=
    if source.lines.isEmpty then
      []
    else
      Text.joinWith source.lineBreak source.texts ++
        (if source.trailingNewline then source.lineBreak else [])
  if source.byteOrderMark then byteOrderMarkChar :: body else body

/-- Count fixes in the report of a file. -/
def count
    (source : Source)
    (name : String)
    (amount : Int) :
    Source :=
  { source with report := source.report.add name amount }

/-- Make counters visible in the report of a file. -/
def register
    (source : Source)
    (names : List String) :
    Source :=
  { source with report := source.report.register names }

end Source

end ScriptUplift
