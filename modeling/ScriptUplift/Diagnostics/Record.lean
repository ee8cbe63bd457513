import ScriptUplift.Report
import ScriptUplift.Text.Quoted

namespace ScriptUplift

/-!
# Diagnostic records

A record is a finding at a line of a file.  A collector keeps the records that
are severe enough and shows them in order of file, line, falling severity and
code.
-/

/-- How severe a finding is. -/
inductive Severity
  | info
  | warning
  | error
  deriving Repr, DecidableEq

namespace Severity

/-- The number by which severities are compared. -/
def rank : Severity → Nat
  | .info => 0
  | .warning => 1
  | .error => 2

/-- The name a severity is reported under. -/
def name : Severity → String
  | .info => "info"
  | .warning => "warning"
  | .error => "error"

/-- The lower case of a character, for the letters whose lower case is in ASCII. -/
def lowerChar
    (character : Char) :
    Char :=
  if character = '\u0130' then 'i'
  else if character = '\u212a' then 'k'
  else character.toLower

/-- A name that no severity has. -/
structure Unknown where
  name : String
  deriving Repr, DecidableEq

/-- The text about an unknown severity. -/
def Unknown.message
    (unknown : Unknown) :
    String :=
  "unknown severity " ++ quotedString unknown.name

/-- Read a severity in any case; `warn` is short for `warning`. -/
def ofName
    (name : String) :
    Except Unknown Severity :=
  let lower := String.ofList (name.toList.map lowerChar)
  if lower = "info" then .ok .info
  else if lower = "warning" ∨ lower = "warn" then .ok .warning
  else if lower = "error" then .ok .error
  else .error ⟨name⟩

end Severity

/-- A finding at a line of a file. -/
structure Record where
  file : String
  line : UInt32 := 0
  severity : Severity
  code : String
  message : String
  deriving Repr, DecidableEq

namespace Record

/-- A line number as a record holds it; one that does not fit becomes zero. -/
def lineOf
    (number : Int) :
    UInt32 :=
  if 0 ≤ number ∧ number < UInt32.size then UInt32.ofNat number.toNat else 0

/-- The order of records: by file, line, falling severity and code. -/
def before
    (first second : Record) :
    Bool :=
  if first.file ≠ second.file then first.file < second.file
  else if first.line ≠ second.line then first.line < second.line
  else if first.severity ≠ second.severity then second.severity.rank < first.severity.rank
  else first.code < second.code

/-- Drop every record that equals the one right before it. -/
def dropRepeats : List Record → List Record
  | first :: second :: rest =>
      if first = second then
        dropRepeats (second :: rest)
      else
        first :: dropRepeats (second :: rest)
  | records =>
      records

end Record

/-- The records gathered so far. -/
structure Collector where
  gathered : List Record := []
  /-- Records below this severity are dropped. -/
  minSeverity : Severity := .info
  deriving Repr, DecidableEq

namespace Collector

/-- Gather a record unless it is not severe enough. -/
def add
    (collector : Collector)
    (record : Record) :
    Collector :=
  if collector.minSeverity.rank ≤ record.severity.rank then
    { collector with gathered := collector.gathered ++ [record] }
  else
    collector

/-- Gather records one after another. -/
def addAll
    (collector : Collector)
    (records : List Record) :
    Collector :=
  records.foldl add collector

/-- The gathered records in order, without neighbouring repeats. -/
def records
    (collector : Collector) :
    List Record :=
  Record.dropRepeats
    (collector.gathered.mergeSort fun first second => !second.before first)

/-- The number of records of a severity. -/
def count
    (collector : Collector)
    (severity : Severity) :
    Nat :=
  collector.records.countP (·.severity == severity)

/-- Whether a warning or an error was gathered. -/
def hasProblems
    (collector : Collector) :
    Bool :=
  0 < collector.count .warning || 0 < collector.count .error

end Collector

end ScriptUplift
