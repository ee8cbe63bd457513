import Mathlib.Algebra.Order.Floor.Div
import Mathlib.Data.Rat.Floor
import Mathlib.Tactic.Common
import ScriptUplift.Proofs.Indentation

namespace ScriptUplift

/-!
# Indentation that is counted, written and moved

What an indentation unit writes for a number of levels is read as that number
and taken off again level by level.  Tabs and spaces in front of a line may mix:
only their numbers count, and spaces that fill no whole level make one more.
Widths, levels and spaces are numbers without a bound here; what a machine does with
them is told by the numbers that its words hold.
-/

/-- A quotient that is rounded up is the least number of steps that reach the amount. -/
theorem ceil_div_eq_ceilDiv
    (amount : Nat)
    {step : Nat}
    (positive : 0 < step) :
    ⌈(amount : ℚ) / step⌉₊ = amount ⌈/⌉ step := by
  have positiveCast : (0 : ℚ) < step :=
    Nat.cast_pos.mpr positive
  refine eq_of_forall_ge_iff fun count => ?_
  rw [Nat.ceil_le, div_le_iff₀ positiveCast, ceilDiv_le_iff_le_mul positive, Nat.mul_comm,
    ← Nat.cast_mul, Nat.cast_le]

namespace IndentUnit

theorem writesSpaces_iff
    (unit : IndentUnit) :
    unit.writesSpaces = true ↔ ¬(unit.tab = true ∨ unit.width ≤ 0) := by
  simp [writesSpaces]

/-- Spaces are counted by the width that the unit writes, and by four if it writes tabs. -/
theorem cast_spacesPerLevel
    (unit : IndentUnit) :
    (unit.spacesPerLevel : ℚ) =
      if unit.tab = true ∨ unit.width ≤ 0 then 4 else (unit.width : ℚ) := by
  by_cases tabbed : unit.tab = true ∨ unit.width ≤ 0
  · have noSpaces : ¬unit.writesSpaces = true :=
      fun spaced => (writesSpaces_iff unit).mp spaced tabbed
    rw [spacesPerLevel, if_neg noSpaces, if_pos tabbed]
    rfl
  · have wide : (unit.width.toNat : Int) = unit.width := by
      omega
    rw [spacesPerLevel, if_pos ((writesSpaces_iff unit).mpr tabbed), if_neg tabbed]
    exact_mod_cast congrArg (Int.cast : Int → ℚ) wide

theorem spacesPerLevel_pos
    (unit : IndentUnit) :
    0 < unit.spacesPerLevel := by
  unfold spacesPerLevel
  split
  · rename_i spaced
    have wide := (writesSpaces_iff unit).mp spaced
    omega
  · decide

/-- The depth of a line with code, by the numbers of its leading tabs and spaces. -/
theorem depth_eq
    (unit : IndentUnit)
    {text : Text}
    (code : text.all isIndentChar = false) :
    unit.depth text =
      text.indentation.count '\t' +
        ⌈(text.indentation.count ' ' : ℚ) /
          (if unit.tab = true ∨ unit.width ≤ 0 then 4 else (unit.width : ℚ))⌉₊ := by
  rw [← cast_spacesPerLevel, ceil_div_eq_ceilDiv _ unit.spacesPerLevel_pos,
    Nat.ceilDiv_eq_add_pred_div, depth, if_neg (by simp [code])]

/-- A level that was written is taken off again. -/
theorem dropLevel?_lead_append
    (unit : IndentUnit)
    (text : Text) :
    unit.dropLevel? (unit.lead 1 ++ text) = some text := by
  by_cases spaced : unit.writesSpaces = true
  · have noTab : (unit.lead 1 ++ text).afterHead? ['\t'] = none := by
      obtain ⟨width, wide⟩ : ∃ width, unit.width.toNat = width + 1 :=
        Nat.exists_eq_succ_of_ne_zero (by
          have notNarrow := (writesSpaces_iff unit).mp spaced
          omega)
      simp [lead, spaced, wide, List.replicate_succ, Text.afterHead?, Text.startsWith]
    rw [dropLevel?, noTab]
    simp only [spaced, if_true]
    exact Text.afterHead?_eq_some_iff.mpr rfl
  · have tabbed : unit.lead 1 = ['\t'] := by
      rw [lead, if_neg spaced]
      rfl
    rw [dropLevel?, tabbed, Text.afterHead?_eq_some_iff.mpr rfl]

/-- Levels that were written are taken off again. -/
theorem dropLevels_lead_append
    (unit : IndentUnit)
    (levels : Nat)
    (text : Text) :
    unit.dropLevels levels (unit.lead levels ++ text) = text := by
  induction levels with
  | zero =>
      rw [lead_zero]
      rfl
  | succ levels inductionHypothesis =>
      rw [Nat.add_comm, ← lead_append_lead, List.append_assoc, Nat.add_comm, dropLevels,
        dropLevel?_lead_append]
      exact inductionHypothesis

/-- A line that was moved to the right comes back by as many levels. -/
theorem shift_neg_shift
    (unit : IndentUnit)
    {levels : Int}
    (right : 0 ≤ levels)
    (text : Text) :
    unit.shift (-levels) (unit.shift levels text) = text := by
  have back : ¬0 < -levels := by
    omega
  by_cases moves : 0 < levels
  · rw [shift, if_neg back, Int.neg_neg, shift, if_pos moves]
    exact unit.dropLevels_lead_append levels.toNat text
  · obtain rfl : levels = 0 := by
      omega
    rfl

end IndentUnit

end ScriptUplift
