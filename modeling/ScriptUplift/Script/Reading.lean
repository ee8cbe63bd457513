import ScriptUplift.Script.Scan

namespace ScriptUplift

/-!
# Reading the lines of a file

What one line hands to the next is an open multiline string, the number of
open brackets, and a pending backslash.  A line that starts with any of them
continues the statement above it.
-/

/-- What is still open between two lines. -/
structure Carry where
  openString : Option Delimiter
  brackets : Nat
  backslash : Bool
  deriving Repr, DecidableEq

namespace Carry

/-- Nothing is open. -/
def neutral : Carry :=
  ⟨none, 0, false⟩

/-- Whether nothing is open, so that the next line starts a statement. -/
def isNeutral
    (carry : Carry) :
    Bool :=
  carry.openString.isNone && carry.brackets == 0 && !carry.backslash

/-- What is open after one more line; closing brackets without partner are forgotten. -/
def after
    (carry : Carry)
    (scan : Scan) :
    Carry where
  openString := scan.openString
  brackets := (carry.brackets + scan.delta).toNat
  backslash := scan.backslash

end Carry

/-- One line as it is read in its file. -/
structure Reading where
  /-- What the lines above left open. -/
  before : Carry
  scan : Scan
  /-- What is open after the line. -/
  after : Carry
  deriving Repr, DecidableEq

namespace Reading

/-- The line continues a bracket, a backslash or a multiline string from above. -/
def continues
    (reading : Reading) :
    Bool :=
  !reading.before.isNeutral

/-- The line begins inside a multiline string. -/
def inString
    (reading : Reading) :
    Bool :=
  reading.before.openString.isSome

/-- Whether a statement that reaches this line ends with it. -/
def completes
    (reading : Reading) :
    Bool :=
  reading.after.isNeutral

/-- Read lines one after another. -/
def lines : Carry → List Text → List Reading
  | _, [] =>
      []
  | carry, text :: rest =>
      let scan := Scan.line carry.openString text
      ⟨carry, scan, carry.after scan⟩ :: lines (carry.after scan) rest

end Reading

end ScriptUplift
