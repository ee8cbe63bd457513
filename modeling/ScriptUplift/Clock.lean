namespace ScriptUplift

/-!
# Durations and dates

A duration is shown in at most two units, cut off and not rounded.  Dates are
counted in the proleptic Gregorian calendar from the start of 1970.
-/

namespace Clock

/-- The nanoseconds of a second. -/
def second : Int :=
  1000000000

/--
The whole units of a duration, computed in double precision as units plus a
fraction.
-/
def wholeUnits
    (unit : Int)
    (duration : Int) :
    Nat :=
  (Float.ofInt (duration / unit) + Float.ofInt (duration % unit) / Float.ofInt unit).toUInt64.toNat

/-- A duration in nanoseconds as a short text. -/
def durationText
    (duration : Int) :
    String :=
  if duration < second then
    "<1s"
  else if duration < 60 * second then
    toString (wholeUnits second duration) ++ "s"
  else if duration < 3600 * second then
    toString (wholeUnits (60 * second) duration) ++ "m" ++
      toString (wholeUnits second duration % 60) ++ "s"
  else
    toString (wholeUnits (3600 * second) duration) ++ "h" ++
      toString (wholeUnits (60 * second) duration % 60) ++ "m"

/-- A day of the calendar. -/
structure Date where
  year : Int
  month : Nat
  day : Nat
  deriving Repr, DecidableEq

/-- The day a number of days after the start of 1970. -/
def dateOfDays
    (days : Int) :
    Date :=
  let shifted := days + 719468
  let era := shifted.fdiv 146097
  let dayOfEra := (shifted - era * 146097).toNat
  let yearOfEra :=
    (dayOfEra - dayOfEra / 1460 + dayOfEra / 36524 - dayOfEra / 146096) / 365
  let dayOfYear := dayOfEra - (365 * yearOfEra + yearOfEra / 4 - yearOfEra / 100)
  let marchMonth := (5 * dayOfYear + 2) / 153
  let day := dayOfYear - (153 * marchMonth + 2) / 5 + 1
  let month := if marchMonth < 10 then marchMonth + 3 else marchMonth - 9
  ⟨yearOfEra + era * 400 + (if month ≤ 2 then 1 else 0), month, day⟩

/-- A number with at least the given count of digits. -/
def digits
    (width : Nat)
    (number : Nat) :
    String :=
  let shown := toString number
  String.ofList (List.replicate (width - shown.length) '0') ++ shown

/-- A year with at least four digits. -/
def yearText
    (year : Int) :
    String :=
  if year < 0 then "-" ++ digits 4 (-year).toNat else digits 4 year.toNat

/-- The date and time of day of a number of seconds after the start of 1970. -/
def stamp
    (seconds : Int) :
    String :=
  let days := seconds.fdiv 86400
  let time := (seconds - days * 86400).toNat
  let date := dateOfDays days
  yearText date.year ++ "-" ++ digits 2 date.month ++ "-" ++ digits 2 date.day ++ " " ++
    digits 2 (time / 3600) ++ ":" ++ digits 2 (time / 60 % 60) ++ ":" ++ digits 2 (time % 60)

/-- The date and time of day of a number of seconds, without separators. -/
def compactStamp
    (seconds : Int) :
    String :=
  String.ofList (((stamp seconds).toList.filter fun character =>
    character != '-' && character != ':').map fun character =>
      if character = ' ' then '_' else character)

/-- The date and time of day of a number of seconds as log lines begin with it. -/
def logStamp
    (seconds : Int) :
    String :=
  String.ofList ((stamp seconds).toList.map fun character =>
    if character = ' ' then 'T' else character) ++ "Z"

end Clock

end ScriptUplift
