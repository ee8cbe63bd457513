import ScriptUplift.Text.Digit

namespace ScriptUplift

/-!
# Floating-point numerals

A numeral is an optional sign with a decimal mantissa and an optional `e`
exponent, or with a `0x` mantissa and a `p` exponent that is required; or one of
the words for infinity and for the undefined value.  An underscore may stand
between two digits, or between the `0x` and a digit.  A numeral counts only if
its value rounds to a finite double; too small values are no objection.
-/

namespace Numeral

/-- Whether a character is a digit of the base. -/
def isDigitOf
    (hexadecimal : Bool)
    (character : Char) :
    Bool :=
  if hexadecimal then (digitValue? character).isSome else isDigitChar character

/-- Whether a text equals a lower-case word up to the case of ASCII letters. -/
def isWord
    (word : String)
    (text : Text) :
    Bool :=
  text.map Char.toLower == word.toList

/-- Remove one sign from the front. -/
def dropSign : Text → Text
  | '+' :: rest =>
      rest
  | '-' :: rest =>
      rest
  | text =>
      text

/-- The words for infinity, which may have a sign, and for the undefined value, which may not. -/
def isSpecial
    (text : Text) :
    Bool :=
  isWord "inf" (dropSign text) || isWord "infinity" (dropSign text) || isWord "nan" text

/-- What the underscore rule remembers of the character before. -/
inductive Last
  | start
  | digit
  | underscore
  | mark
  deriving Repr, DecidableEq

/-- Every underscore stands between digits, given what came before. -/
def underscoresSeparate
    (hexadecimal : Bool) :
    Last → Text → Bool
  | last, [] =>
      last != .underscore
  | last, character :: rest =>
      if isDigitOf hexadecimal character then
        underscoresSeparate hexadecimal .digit rest
      else if character = '_' then
        last == .digit && underscoresSeparate hexadecimal .underscore rest
      else
        last != .underscore && underscoresSeparate hexadecimal .mark rest

/-- The digits before and after the point of a mantissa, and what follows it. -/
structure Mantissa where
  whole : Text
  fraction : Text
  rest : Text
  deriving Repr, DecidableEq

/-- Read digits, underscores and at most one point. -/
def Mantissa.read
    (hexadecimal : Bool)
    (text : Text) :
    Mantissa :=
  let part := fun (character : Char) => isDigitOf hexadecimal character || character == '_'
  let whole := text.takeWhile part
  let afterWhole := text.dropWhile part
  match afterWhole with
  | '.' :: tail =>
      ⟨whole.filter (· != '_'), (tail.takeWhile part).filter (· != '_'), tail.dropWhile part⟩
  | _ =>
      ⟨whole.filter (· != '_'), [], afterWhole⟩

/-- Exponents beyond this bound are far outside the range of doubles. -/
def exponentCap : Nat :=
  100000

/-- Read the digits of an exponent up to the end of the text. -/
def exponentDigits?
    (text : Text) :
    Option Nat :=
  if text.head?.any isDigitChar && text.all fun digit => isDigitChar digit || digit == '_' then
    let digits := text.filter (· != '_')
    if exponentCap.log2 < (digits.dropWhile (· == '0')).length then
      some exponentCap
    else
      some (min exponentCap (valueOf 10 digits))
  else
    none

/-- Read the exponent that the given letter introduces; nothing stands for zero. -/
def exponent?
    (letter : Char) :
    Text → Option Int
  | [] =>
      some 0
  | mark :: rest =>
      if mark.toLower = letter then
        (exponentDigits? (dropSign rest)).map fun (size : Nat) =>
          if rest.head? = some '-' then -(size : Int) else size
      else
        none

/-- Half a unit above the largest finite double: from here on values round to infinity. -/
def overflowBound : Nat :=
  Nat.pow 2 1024 - Nat.pow 2 970

/-- Whether `mantissa * base ^ exponent` stays below the overflow bound. -/
def isFinite
    (base : Nat)
    (mantissa : Nat)
    (exponent : Int) :
    Bool :=
  if mantissa = 0 then
    true
  else if 0 ≤ exponent then
    if 2000 < exponent then false
    else mantissa * Nat.pow base exponent.toNat < overflowBound
  else if mantissa < overflowBound then
    true
  else
    mantissa < overflowBound * Nat.pow base (-exponent).toNat

/-- Whether unsigned text is a decimal or hexadecimal numeral with a finite value. -/
def isFiniteNumeral
    (text : Text) :
    Bool :=
  let hexadecimal :=
    match text with
    | '0' :: mark :: _ :: _ => mark.toLower == 'x'
    | _ => false
  let body := if hexadecimal then text.drop 2 else text
  let mantissa := Mantissa.read hexadecimal body
  let base := if hexadecimal then 16 else 10
  let value := valueOf base (mantissa.whole ++ mantissa.fraction)
  let separated :=
    underscoresSeparate hexadecimal (if hexadecimal then .digit else .start) body
  !(mantissa.whole.isEmpty && mantissa.fraction.isEmpty) && separated &&
    !(hexadecimal && mantissa.rest.isEmpty) &&
    match exponent? (if hexadecimal then 'p' else 'e') mantissa.rest with
    | none =>
        false
    | some exponent =>
        if hexadecimal then
          isFinite 2 value (exponent - 4 * mantissa.fraction.length)
        else
          isFinite 10 value (exponent - mantissa.fraction.length)

end Numeral

/-- Whether a text is a floating-point numeral. -/
def isNumeral
    (text : Text) :
    Bool :=
  Numeral.isSpecial text || Numeral.isFiniteNumeral (Numeral.dropSign text)

end ScriptUplift
