import Mathlib.Tactic.Common
import Mathlib.Tactic.Ring
import ScriptUplift.Digest.Sha256

namespace ScriptUplift

/-!
# Numbers as bytes

The bytes of a number, the most significant one first, stand for the number up
to the values that the given count of bytes has room for.  Below that bound the
order of the bytes is the order of the numbers.
-/

namespace Sha256

@[simp] theorem length_bigEndian
    (count number : Nat) :
    (bigEndian count number).length = count := by
  simp [bigEndian]

/-- The first byte is the highest digit, and the others are those of a shorter number. -/
theorem bigEndian_succ
    (count number : Nat) :
    bigEndian (count + 1) number =
      UInt8.ofNat (number / 256 ^ count % 256) :: bigEndian count number := by
  unfold bigEndian
  rw [List.range_succ_eq_map, List.map_cons, List.map_map]
  refine congrArg₂ List.cons rfl (List.map_congr_left ?_)
  intro place _
  have sameExponent : count + 1 - 1 - (place + 1) = count - 1 - place := by
    omega
  simp only [Function.comp_apply, Nat.succ_eq_add_one, sameExponent]

/-- The value of bytes read after others is the value the bytes were written for. -/
theorem foldl_bigEndian
    (count number start : Nat) :
    (bigEndian count number).foldl (fun value byte => value * 256 + byte.toNat) start =
      start * 256 ^ count + number % 256 ^ count := by
  induction count generalizing start with
  | zero =>
      simp [bigEndian, Nat.mod_one]
  | succ count inductionHypothesis =>
      rw [bigEndian_succ, List.foldl_cons, inductionHypothesis, UInt8.toNat_ofNat',
        Nat.mod_mod, Nat.mod_pow_succ, Nat.pow_succ]
      ring

/-- The bytes of a number that has room in them stand for it. -/
theorem foldl_bigEndian_of_lt
    (count : Nat)
    {number : Nat}
    (room : number < 256 ^ count) :
    (bigEndian count number).foldl (fun value byte => value * 256 + byte.toNat) 0 = number := by
  rw [foldl_bigEndian, Nat.zero_mul, Nat.zero_add, Nat.mod_eq_of_lt room]

/-- A number with a lower digit before a remainder is lower, whatever the remainders. -/
theorem digit_lt_digit
    {low high base lowRest highRest : Nat}
    (less : low < high)
    (small : lowRest < base) :
    lowRest + base * low < highRest + base * high :=
  calc
    lowRest + base * low
      < base + base * low :=
        Nat.add_lt_add_right small _
    _ = base * (low + 1) := by
        ring
    _ ≤ base * high :=
        Nat.mul_le_mul_left base less
    _ ≤ highRest + base * high :=
        Nat.le_add_left _ _

/-- The order of the bytes is the order of the numbers they have room for. -/
theorem bigEndian_lt_iff
    (count first second : Nat) :
    bigEndian count first < bigEndian count second ↔
      first % 256 ^ count < second % 256 ^ count := by
  induction count with
  | zero =>
      simp [bigEndian, Nat.mod_one]
  | succ count inductionHypothesis =>
      rw [bigEndian_succ, bigEndian_succ, List.cons_lt_cons_iff, inductionHypothesis,
        Nat.mod_pow_succ, Nat.mod_pow_succ, UInt8.lt_iff_toNat_lt, ← UInt8.toNat_inj,
        UInt8.toNat_ofNat', UInt8.toNat_ofNat', Nat.mod_mod, Nat.mod_mod]
      have firstSmall : first % 256 ^ count < 256 ^ count :=
        Nat.mod_lt _ (Nat.pow_pos (by decide))
      have secondSmall : second % 256 ^ count < 256 ^ count :=
        Nat.mod_lt _ (Nat.pow_pos (by decide))
      rcases Nat.lt_trichotomy (first / 256 ^ count % 256) (second / 256 ^ count % 256) with
        less | same | greater
      · simp [less, digit_lt_digit less firstSmall]
      · simp [same]
      · have reversed :
            second % 256 ^ count + 256 ^ count * (second / 256 ^ count % 256) <
              first % 256 ^ count + 256 ^ count * (first / 256 ^ count % 256) :=
          digit_lt_digit greater secondSmall
        omega

end Sha256

end ScriptUplift
