import ScriptUplift.Text.Integer
import ScriptUplift.Text.Quoted

namespace ScriptUplift

/-!
# Logging

An event has a level, a message and named values.  A logger of a level shows the
events of its level and above, one to a line.
-/

/-- The levels of events. -/
inductive LogLevel
  | trace
  | debug
  | info
  | warn
  | error
  | fatal
  | crash
  deriving Repr, DecidableEq

namespace LogLevel

/-- Every level, in order. -/
def all : List LogLevel :=
  [.trace, .debug, .info, .warn, .error, .fatal, .crash]

/-- The number of a level. -/
def number : LogLevel → Int
  | .trace => -1
  | .debug => 0
  | .info => 1
  | .warn => 2
  | .error => 3
  | .fatal => 4
  | .crash => 5

/-- The name of a level. -/
def name : LogLevel → String
  | .trace => "trace"
  | .debug => "debug"
  | .info => "info"
  | .warn => "warn"
  | .error => "error"
  | .fatal => "fatal"
  | .crash => "panic"

/-- The label of a level in front of a message. -/
def label : LogLevel → String
  | .trace => "TRC"
  | .debug => "DBG"
  | .info => "INF"
  | .warn => "WRN"
  | .error => "ERR"
  | .fatal => "FTL"
  | .crash => "PNC"

/-- Whether events of a level go with the errors. -/
def isError
    (level : LogLevel) :
    Bool :=
  3 ≤ level.number

end LogLevel

/-- The level from which on a logger shows events. -/
structure LogThreshold where
  number : Int
  deriving Repr, DecidableEq

/-- Why a threshold cannot be read. -/
inductive LogThresholdFault
  | unknown (name : String)
  | outOfBounds (name : String) (number : Int)
  deriving Repr, DecidableEq

/-- The text about a threshold that cannot be read. -/
def LogThresholdFault.message : LogThresholdFault → String
  | .unknown name =>
      "invalid log level " ++ quotedString name ++ ": Unknown Level String: '" ++ name ++
        "', defaulting to NoLevel"
  | .outOfBounds name number =>
      "invalid log level " ++ quotedString name ++ ": Out-Of-Bounds Level: '" ++
        toString number ++ "', defaulting to NoLevel"

namespace LogThreshold

/-- Nothing is shown. -/
def disabled : LogThreshold :=
  ⟨7⟩

/-- The number that stands for no level at all. -/
def absentNumber : Int :=
  6

/-- The default. -/
def info : LogThreshold :=
  ⟨1⟩

/-- The form of a character under which cases are not told apart. -/
def foldChar
    (character : Char) :
    Char :=
  if character = '\u017f' then 's'
  else if character = '\u212a' then 'k'
  else character.toLower

/-- Whether a text equals a lower-case name up to case. -/
def isName
    (text name : String) :
    Bool :=
  text.toList.map foldChar == name.toList

/-- Read a decimal integer with an optional sign that fits sixty-four bits. -/
def integer?
    (text : String) :
    Option Int :=
  let (negative, digits) :=
    match text.toList with
    | '-' :: rest => (true, rest)
    | '+' :: rest => (false, rest)
    | digits => (false, digits)
  if digits.isEmpty || !digits.all isDigitChar then
    none
  else
    let size : Int :=
      digits.foldl (fun value digit => value * 10 + (digit.toNat - '0'.toNat)) 0
    let value := if negative then -size else size
    if Numeral.fitsWord value then some value else none

/-- Read a threshold by name, in any case, or by number; no name means the default. -/
def ofName
    (name : String) :
    Except LogThresholdFault LogThreshold :=
  match LogLevel.all.find? fun level => isName name level.name with
  | some level =>
      .ok ⟨level.number⟩
  | none =>
      if isName name "disabled" then .ok disabled
      else if name = "" then .ok info
      else
        match integer? name with
        | none =>
            .error (.unknown name)
        | some number =>
            if number < -128 ∨ 127 < number then .error (.outOfBounds name number)
            else if number = absentNumber then .ok info
            else .ok ⟨number⟩

/-- The name of a threshold; its number if it has none. -/
def name
    (threshold : LogThreshold) :
    String :=
  match LogLevel.all.find? (·.number == threshold.number) with
  | some level => level.name
  | none => if threshold = disabled then "disabled" else toString threshold.number

/-- Whether events of a level are shown. -/
def shows
    (threshold : LogThreshold)
    (level : LogLevel) :
    Bool :=
  threshold.number ≤ level.number

end LogThreshold

/-- A value of an event. -/
inductive LogValue
  | text (value : String)
  | number (value : Int)
  | flag (value : Bool)
  deriving Repr, DecidableEq

/-- Something worth telling the operator. -/
structure LogEvent where
  level : LogLevel
  message : String
  fields : List (String × LogValue) := []
  deriving Repr, DecidableEq

namespace LogEvent

/-- Whether a text has to be quoted in a log line. -/
def needsQuotes
    (text : String) :
    Bool :=
  text.toList.any fun character =>
    character.toNat < 0x21 || 0x7e < character.toNat || character == '\\' || character == '"'

/-- The text of a value. -/
def valueText : LogValue → String
  | .text value => if needsQuotes value then quotedString value else value
  | .number value => toString value
  | .flag value => toString value

/-- The order of the names in a line: alphabetical, with the error first. -/
def nameBefore
    (first second : String) :
    Bool :=
  if first = "error" then true
  else if second = "error" then false
  else first ≤ second

/-- An event as a line. -/
def line
    (event : LogEvent) :
    String :=
  " ".intercalate
    (([event.level.label, event.message].filter (· != "")) ++
      (event.fields.mergeSort fun first second => nameBefore first.1 second.1).map fun field =>
        field.1 ++ "=" ++ valueText field.2)

end LogEvent

end ScriptUplift
