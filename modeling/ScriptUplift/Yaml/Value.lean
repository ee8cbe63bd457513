import ScriptUplift.Text.Integer
import ScriptUplift.Yaml.Node

namespace ScriptUplift

/-!
# The values of scalars

A scalar without quotes and tags may stand for nothing, for a truth value, for a
number or for a time; everything else is a text.
-/

/-- What a scalar stands for. -/
inductive YamlValue
  | nothing
  | flag (value : Bool)
  | integer (value : Int)
  | real (value : Float)
  | time
  | text
  deriving Repr

namespace YamlValue

/-- The tag of a value. -/
def tag : YamlValue → String
  | .nothing => "!!null"
  | .flag _ => "!!bool"
  | .integer _ => "!!int"
  | .real _ => "!!float"
  | .time => "!!timestamp"
  | .text => "!!str"

/-- The words for values. -/
def words : List (String × YamlValue) :=
  [("", .nothing), ("~", .nothing), ("null", .nothing), ("Null", .nothing), ("NULL", .nothing),
   ("true", .flag true), ("True", .flag true), ("TRUE", .flag true),
   ("false", .flag false), ("False", .flag false), ("FALSE", .flag false),
   (".nan", .real (0.0 / 0.0)), (".NaN", .real (0.0 / 0.0)), (".NAN", .real (0.0 / 0.0)),
   (".inf", .real (1.0 / 0.0)), (".Inf", .real (1.0 / 0.0)), (".INF", .real (1.0 / 0.0)),
   ("+.inf", .real (1.0 / 0.0)), ("+.Inf", .real (1.0 / 0.0)), ("+.INF", .real (1.0 / 0.0)),
   ("-.inf", .real (-1.0 / 0.0)), ("-.Inf", .real (-1.0 / 0.0)), ("-.INF", .real (-1.0 / 0.0))]

/-- The digits, the point and the exponent of a decimal number. -/
structure Decimal where
  negative : Bool
  whole : Text
  fraction : Text
  exponent : Int
  deriving Repr, DecidableEq

/-- Read an exponent up to the end of a text. -/
def exponent? : Text → Option Int
  | [] =>
      some 0
  | mark :: rest =>
      if mark = 'e' || mark = 'E' then
        let (negative, digits) :=
          match rest with
          | '-' :: digits => (true, digits)
          | '+' :: digits => (false, digits)
          | digits => (false, digits)
        if digits.isEmpty || !digits.all isDigitChar then none
        else
          let size : Int := Numeral.valueOf 10 digits
          some (if negative then -size else size)
      else
        none

/-- Read a decimal number: it has a digit before the point, or one after it. -/
def Decimal.read?
    (text : Text) :
    Option Decimal :=
  let (negative, unsigned) :=
    match text with
    | '-' :: rest => (true, rest)
    | '+' :: rest => (false, rest)
    | rest => (false, rest)
  let whole := unsigned.takeWhile isDigitChar
  let (fraction, rest) :=
    match unsigned.drop whole.length with
    | '.' :: tail => (tail.takeWhile isDigitChar, tail.dropWhile isDigitChar)
    | tail => ([], tail)
  if whole.isEmpty && fraction.isEmpty then none
  else (exponent? rest).map fun exponent => ⟨negative, whole, fraction, exponent⟩

/-- The double nearest to a decimal number; one that is too large has none. -/
def Decimal.toFloat?
    (decimal : Decimal) :
    Option Float :=
  let digits := (decimal.whole ++ decimal.fraction).dropWhile (· == '0')
  let mantissa := Numeral.valueOf 10 digits
  let exponent := decimal.exponent - decimal.fraction.length
  let size :=
    if mantissa = 0 || exponent + digits.length < -400 then some 0.0
    else if 400 < exponent + digits.length then none
    else
      let value := Float.ofScientific mantissa (exponent < 0) exponent.natAbs
      if value.isFinite then some value else none
  size.map fun value => if decimal.negative then -value else value

/-- The days of a month. -/
def daysIn
    (year month : Nat) :
    Nat :=
  if month = 2 then
    if year % 4 = 0 && (year % 100 != 0 || year % 400 = 0) then 29 else 28
  else if [4, 6, 9, 11].contains month then 30
  else 31

/-- Read a number of one or two digits. -/
def shortNumber?
    (text : Text) :
    Option (Nat × Text) :=
  let digits := (text.take 2).takeWhile isDigitChar
  if digits.isEmpty then none else some (Numeral.valueOf 10 digits, text.drop digits.length)

/-- Read a date: four digits of a year, a month and a day of it. -/
def afterDate?
    (text : Text) :
    Option Text :=
  let year := text.take 4
  match text.drop 4 with
  | '-' :: rest =>
      match shortNumber? rest with
      | some (month, '-' :: tail) =>
          match shortNumber? tail with
          | some (day, after) =>
              if year.length = 4 && year.all isDigitChar && 1 ≤ month && month ≤ 12 && 1 ≤ day &&
                  day ≤ daysIn (Numeral.valueOf 10 year) month then
                some after
              else
                none
          | none => none
      | _ => none
  | _ => none

/-- Read a time of day with an optional fraction of a second. -/
def afterTime?
    (text : Text) :
    Option Text :=
  match shortNumber? text with
  | some (hour, ':' :: rest) =>
      match shortNumber? rest with
      | some (minute, ':' :: tail) =>
          match shortNumber? tail with
          | some (second, after) =>
              if hour < 24 && minute < 60 && second < 60 then
                match after with
                | '.' :: digit :: digits =>
                    if isDigitChar digit then some (digits.dropWhile isDigitChar) else some after
                | _ => some after
              else
                none
          | none => none
      | _ => none
  | _ => none

/-- Whether a text is a time zone. -/
def isZone : Text → Bool
  | ['Z'] => true
  | sign :: rest =>
      (sign == '+' || sign == '-') &&
        match rest with
        | [a, b, ':', c, d] => [a, b, c, d].all isDigitChar
        | _ => false
  | [] => false

/-- Whether a text is a date, or a date and a time. -/
def isTime
    (text : Text) :
    Bool :=
  match afterDate? text with
  | none => false
  | some [] => true
  | some (' ' :: rest) => afterTime? rest == some []
  | some (mark :: rest) =>
      (mark == 'T' || mark == 't') && (afterTime? rest).any isZone

/-- The number a text stands for, if any; underscores do not count. -/
def number?
    (text : Text) :
    Option YamlValue :=
  let plain := text.filter (· != '_')
  match Numeral.integer? plain with
  | some value =>
      if Numeral.fitsWord value ||
          (0 ≤ value && value < Numeral.unsignedBound && plain.head? != some '+') then
        some (.integer value)
      else
        real? plain
  | none =>
      real? plain
where
  /-- The decimal number a text stands for. -/
  real?
      (text : Text) :
      Option YamlValue :=
    ((Decimal.read? text).bind Decimal.toFloat?).map .real

/-- What a scalar without quotes and tags stands for. -/
def ofPlain
    (text : Text) :
    YamlValue :=
  match words.lookup (String.ofList text) with
  | some value =>
      value
  | none =>
      match text.head? with
      | some '.' =>
          (((Decimal.read? text).bind Decimal.toFloat?).map .real).getD .text
      | some head =>
          if isDigitChar head || head = '+' || head = '-' then
            if isTime text then .time else (number? text).getD .text
          else
            .text
      | none =>
          .text

end YamlValue

/--
What a node stands for, if it is a scalar.  Quotes and the tag of texts make a text;
another tag has to be that of the value.
-/
def YamlNode.value? : YamlNode → Option YamlValue
  | .scalar text plain tag =>
      let value := YamlValue.ofPlain text
      match tag.map String.ofList with
      | none | some "!" => some (if plain then value else .text)
      | some "!!str" => some .text
      | some "!!float" =>
          match value with
          | .integer whole => some (.real (Float.ofInt whole))
          | .real exact => some (.real exact)
          | _ => none
      | some name => if name = value.tag then some value else none
  | _ =>
      none

end ScriptUplift
