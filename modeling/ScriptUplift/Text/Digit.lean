import ScriptUplift.Text.Basic

namespace ScriptUplift

/-!
# Digits

The values of digits and of rows of them, in any base up to sixteen.
-/

namespace Numeral

/-- The value of a hexadecimal digit. -/
def digitValue?
    (character : Char) :
    Option Nat :=
  if isDigitChar character then some (character.toNat - '0'.toNat)
  else if 'a' ≤ character ∧ character ≤ 'f' then some (character.toNat - 'a'.toNat + 10)
  else if 'A' ≤ character ∧ character ≤ 'F' then some (character.toNat - 'A'.toNat + 10)
  else none

/-- The number a row of digits stands for. -/
def valueOf
    (base : Nat)
    (digits : Text) :
    Nat :=
  digits.foldl (fun value digit => value * base + (digitValue? digit).getD 0) 0

end Numeral

end ScriptUplift
