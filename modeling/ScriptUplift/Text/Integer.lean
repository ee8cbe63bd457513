import ScriptUplift.Text.Digit

namespace ScriptUplift

/-!
# Integers

An integer has an optional sign.  Its base is told by its head: `0x`, `0o` or
`0b` in either case, or a zero for octal.  Underscores may stand between digits
and after the head.
-/

namespace Numeral

/-- Why a text is not an integer of sixty-four bits. -/
inductive IntegerFault
  | malformed
  | outOfRange
  deriving Repr, DecidableEq

/-- The base a number is written in, and its digits. -/
def splitBase : Text → Nat × Text
  | '0' :: mark :: digit :: rest =>
      match mark.toLower with
      | 'x' => (16, digit :: rest)
      | 'o' => (8, digit :: rest)
      | 'b' => (2, digit :: rest)
      | _ => (8, mark :: digit :: rest)
  | '0' :: rest =>
      (8, if rest.isEmpty then ['0'] else rest)
  | text =>
      (10, text)

/-- Whether underscores stand between digits only, given whether a digit or a head came before. -/
def underscoresBetween : Bool → Text → Bool
  | _, [] => true
  | digitBefore, '_' :: digit :: rest =>
      digitBefore && (digitValue? digit).isSome && underscoresBetween true rest
  | _, '_' :: [] => false
  | _, _ :: rest => underscoresBetween true rest

/-- The size of an integer without a sign. -/
def magnitude?
    (text : Text) :
    Option Nat :=
  let (base, digits) := splitBase text
  let plain := digits.filter (· != '_')
  if plain.isEmpty || !underscoresBetween (base != 10) digits then
    none
  else if plain.all fun digit => (digitValue? digit).any (· < base) then
    some (valueOf base plain)
  else
    none

/-- Read an integer of any size. -/
def integer? : Text → Option Int
  | '+' :: rest => (magnitude? rest).map Int.ofNat
  | '-' :: rest => (magnitude? rest).map fun size => -Int.ofNat size
  | text => (magnitude? text).map Int.ofNat

/-- The first integer that is too large for sixty-four bits with a sign. -/
def wordBound : Int :=
  0x8000000000000000

/-- The first number that is too large for sixty-four bits. -/
def unsignedBound : Nat :=
  0x10000000000000000

/-- Whether an integer has sixty-four bits. -/
def fitsWord
    (value : Int) :
    Bool :=
  -wordBound ≤ value && value < wordBound

/-- A text without its sign. -/
def unsigned : Text → Text
  | '+' :: rest => rest
  | '-' :: rest => rest
  | text => text

/-- Whether the digits before the first character that is none are already too many. -/
def overflows
    (text : Text) :
    Bool :=
  let (base, digits) := splitBase (unsigned text)
  let leading := digits.takeWhile fun digit =>
    digit == '_' || (digitValue? digit).any (· < base)
  unsignedBound ≤ valueOf base (leading.filter (· != '_'))

/-- Read an integer of sixty-four bits; too many digits are told before a wrong one. -/
def word
    (text : Text) :
    Except IntegerFault Int :=
  match integer? text with
  | none => .error (if overflows text then .outOfRange else .malformed)
  | some value => if fitsWord value then .ok value else .error .outOfRange

end Numeral

end ScriptUplift
