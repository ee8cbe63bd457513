import ScriptUplift.Indent.Unit
import ScriptUplift.Script.Reading

namespace ScriptUplift

/-!
# Detecting the indentation of a file

Tabs win if any statement starts with one.  Otherwise the most common step
taken right after a statement that opens a block decides the space width, the
smallest of several equally common steps.  Files without nesting get tabs.
-/

namespace IndentUnit

/-- The first line of a statement, as far as its indentation tells something. -/
structure Opening where
  leading : Text
  /-- The statement fits on the line and opens a block. -/
  opensBlock : Bool
  deriving Repr, DecidableEq

/-- The statement a line starts, unless it continues one or holds no code. -/
def Opening.ofReading?
    (text : Text)
    (reading : Reading) :
    Option Opening :=
  if reading.continues || reading.scan.code.isBlank then
    none
  else
    some ⟨text.indentation, ScriptUplift.opensBlock reading.scan.code && reading.completes⟩

/-- The statements that start on the lines of a file. -/
def openings
    (texts : List Text) :
    List Opening :=
  (texts.zip (Reading.lines .neutral texts)).filterMap fun pair =>
    Opening.ofReading? pair.1 pair.2

/-- The growth of the indentation after each statement that opens a block. -/
def steps : List Opening → List Nat
  | first :: second :: rest =>
      if first.opensBlock && decide (first.leading.length < second.leading.length) then
        (second.leading.length - first.leading.length) :: steps (second :: rest)
      else
        steps (second :: rest)
  | _ =>
      []

/-- Of two steps, the more common one; of equally common ones, the smaller. -/
def preferredStep
    (all : List Nat)
    (first second : Nat) :
    Nat :=
  if all.count first < all.count second then
    second
  else if all.count second < all.count first then
    first
  else
    min first second

/-- The smallest of the most common steps. -/
def commonStep? : List Nat → Option Nat
  | [] =>
      none
  | first :: rest =>
      some (rest.foldl (preferredStep (first :: rest)) first)

/-- Guess the indentation unit of a script. -/
def detect
    (texts : List Text) :
    IndentUnit :=
  let statements := openings texts
  if statements.any (·.leading.startsWith ['\t']) then
    tabs
  else
    match commonStep? (steps statements) with
    | some step =>
        spaces step
    | none =>
        tabs

/-- How the indentation of a file is chosen. -/
inductive Style
  | tab
  | space
  | detected
  deriving Repr, DecidableEq

/-- Read the name of a style; every other name asks for detection. -/
def Style.ofName
    (name : String) :
    Style :=
  if name = "tab" then .tab
  else if name = "space" then .space
  else .detected

/-- Apply a configured style on top of detection; four spaces stand for a width that is none. -/
def resolve
    (style : Style)
    (width : Int)
    (texts : List Text) :
    IndentUnit :=
  match style with
  | .tab =>
      tabs
  | .space =>
      spaces (if width ≤ 0 then 4 else width)
  | .detected =>
      detect texts

end IndentUnit

end ScriptUplift
