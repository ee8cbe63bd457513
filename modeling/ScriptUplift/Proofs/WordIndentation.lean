import Mathlib.Tactic.Common
import Mathlib.Tactic.Linarith
import Mathlib.Tactic.Zify
import ScriptUplift.Proofs.IndentArithmetic

namespace ScriptUplift

/-!
# Indentation on a machine

A machine counts levels in words that wrap around, and it breaks down over a text
that is too long for it.  As long as it has room for the levels that are asked of
it, it writes, reads and moves indentation as if its words had no bound.  Beyond
that no line is found at the depth it was given.
-/

/-- A word holds every number of its range. -/
theorem wordOf_eq
    {number : Int}
    (low : -2 ^ 63 ≤ number)
    (high : number < 2 ^ 63) :
    wordOf number = number :=
  Int.bmod_eq_of_le (by omega) (by omega)

/-- A sum of two numbers that is too large for a word wraps around. -/
theorem wordOf_eq_sub
    {number : Int}
    (low : 2 ^ 63 ≤ number)
    (high : number < 2 ^ 64) :
    wordOf number = number - 2 ^ 64 := by
  simp only [wordOf, Int.bmod]
  split <;> omega

/-- A text that was asked for is there exactly when it is none too long. -/
theorem wordRepeat_eq_ok_iff
    {count : Int}
    {character : Char}
    {text : Text} :
    wordRepeat count character = .ok text ↔
      0 ≤ count ∧ count ≤ longestText ∧ text = List.replicate count.toNat character := by
  unfold wordRepeat
  split
  · simp only [reduceCtorEq, false_iff]
    omega
  · split
    · simp only [reduceCtorEq, false_iff]
      omega
    · rw [Except.ok.injEq]
      constructor
      · rintro rfl
        exact ⟨by omega, by omega, rfl⟩
      · rintro ⟨_, _, rfl⟩
        rfl

namespace IndentUnit

theorem step_of_writesSpaces
    {unit : IndentUnit}
    (spaced : unit.writesSpaces = true) :
    (unit.step : Int) = unit.width := by
  have wide := (writesSpaces_iff unit).mp spaced
  rw [step, if_pos spaced]
  omega

theorem spacesPerLevel_of_writesSpaces
    {unit : IndentUnit}
    (spaced : unit.writesSpaces = true) :
    unit.spacesPerLevel = unit.step := by
  rw [spacesPerLevel, if_pos spaced, step, if_pos spaced]

/-- Room for a number of levels is room for fewer. -/
theorem Holds.mono
    {unit : IndentUnit}
    {few many : Nat}
    (held : unit.Holds many)
    (fewer : few ≤ many) :
    unit.Holds few :=
  (Nat.mul_le_mul_right unit.step fewer).trans held

/-- The whitespace of levels that a machine has room for is what it writes. -/
theorem wordLead_eq
    {unit : IndentUnit}
    {depth : Nat}
    (held : unit.Holds depth) :
    unit.wordLead depth = .ok (unit.lead depth) := by
  unfold Holds at held
  unfold wordLead
  by_cases none : (depth : Int) ≤ 0
  · obtain rfl : depth = 0 := by
      omega
    rw [if_pos none, lead_zero]
  · rw [if_neg none]
    by_cases spaced : unit.writesSpaces = true
    · have product : (depth : Int) * unit.width = (depth * unit.step : Nat) := by
        rw [← step_of_writesSpaces spaced, Nat.cast_mul]
      have inWord : wordOf (depth * unit.width) = (depth * unit.step : Nat) := by
        rw [product]
        exact wordOf_eq (by omega) (by unfold longestText at held; omega)
      rw [if_pos spaced, inWord, wordRepeat_eq_ok_iff, lead, if_pos spaced, step, if_pos spaced]
      refine ⟨by omega, ?_, rfl⟩
      rw [step, if_pos spaced] at held
      exact_mod_cast held
    · rw [if_neg spaced, wordRepeat_eq_ok_iff, lead, if_neg spaced]
      rw [step, if_neg spaced, Nat.mul_one] at held
      exact ⟨by omega, by exact_mod_cast held, rfl⟩

/-- Spaces whose sum with the width fits a word fill as many levels as without a bound. -/
theorem wordLevels_eq
    {unit : IndentUnit}
    {spaceCount : Nat}
    (fits : spaceCount + unit.spacesPerLevel ≤ 2 ^ 63) :
    unit.wordLevels spaceCount =
      ((spaceCount + unit.spacesPerLevel - 1) / unit.spacesPerLevel : Nat) := by
  have positive := unit.spacesPerLevel_pos
  unfold wordLevels
  split
  · rename_i none
    rw [none, Nat.zero_add, Nat.div_eq_of_lt (Nat.sub_lt positive Nat.one_pos)]
    rfl
  · have sum : (spaceCount : Int) + unit.spacesPerLevel - 1 =
        (spaceCount + unit.spacesPerLevel - 1 : Nat) := by
      omega
    rw [sum, wordOf_eq (by omega) (by omega), Int.tdiv_eq_ediv_of_nonneg (by omega)]
    norm_cast

/-- Spaces whose sum with the width wraps around fill no level. -/
theorem wordLevels_nonpos
    {unit : IndentUnit}
    {spaceCount : Nat}
    (wraps : 2 ^ 63 < spaceCount + unit.spacesPerLevel)
    (twoWords : spaceCount + unit.spacesPerLevel ≤ 2 ^ 64) :
    -2 ^ 63 ≤ unit.wordLevels spaceCount ∧ unit.wordLevels spaceCount ≤ 0 := by
  unfold wordLevels
  split
  · omega
  · have low : (2 ^ 63 : Int) ≤ spaceCount + unit.spacesPerLevel - 1 := by
      omega
    have wrapped := wordOf_eq_sub low (by omega)
    have backwards : 0 ≤ -wordOf (spaceCount + unit.spacesPerLevel - 1) := by
      omega
    have least := Int.tdiv_nonneg backwards (Int.natCast_nonneg unit.spacesPerLevel)
    have greatest := Int.tdiv_le_self unit.spacesPerLevel backwards
    rw [Int.neg_tdiv] at least greatest
    omega

/-- Spaces fill no more levels than there are spaces. -/
theorem levels_le
    (unit : IndentUnit)
    (spaceCount : Nat) :
    (spaceCount + unit.spacesPerLevel - 1) / unit.spacesPerLevel ≤ spaceCount := by
  have positive := unit.spacesPerLevel_pos
  rw [← Nat.ceilDiv_eq_add_pred_div, ceilDiv_le_iff_le_mul positive]
  exact Nat.le_mul_of_pos_left spaceCount positive

/-- Spaces fill a level as soon as there is one. -/
theorem levels_pos
    (unit : IndentUnit)
    {spaceCount : Nat}
    (some : spaceCount ≠ 0) :
    0 < (spaceCount + unit.spacesPerLevel - 1) / unit.spacesPerLevel :=
  Nat.div_pos (by omega) unit.spacesPerLevel_pos

theorem count_tab_add_count_space_le
    (text : Text) :
    text.indentation.count '\t' + text.indentation.count ' ' ≤ text.indentation.length := by
  generalize text.indentation = leading
  induction leading with
  | nil =>
      exact Nat.le_refl 0
  | cons character rest inductionHypothesis =>
      rw [List.count_cons, List.count_cons, List.length_cons]
      by_cases tab : character = '\t'
      · rw [tab]
        simp
        omega
      · simp [tab]
        split <;> omega

theorem depth_of_code
    (unit : IndentUnit)
    {text : Text}
    (code : text.all isIndentChar = false) :
    unit.depth text =
      text.indentation.count '\t' +
        (text.indentation.count ' ' + unit.spacesPerLevel - 1) / unit.spacesPerLevel := by
  rw [depth, if_neg (by simp [code])]

/-- A depth is read as without a bound when the sum of spaces and width fits a word. -/
theorem wordDepth_eq
    {unit : IndentUnit}
    {text : Text}
    (short : text.indentation.length ≤ longestText)
    (fits : text.indentation.count ' ' + unit.spacesPerLevel ≤ 2 ^ 63) :
    unit.wordDepth text = unit.depth text := by
  have counts := count_tab_add_count_space_le text
  have levels := unit.levels_le (text.indentation.count ' ')
  unfold longestText at short
  by_cases code : text.all isIndentChar = true
  · rw [wordDepth, if_pos code, depth, if_pos code]
    rfl
  · rw [wordDepth, if_neg code, wordLevels_eq fits, depth_of_code unit (by simpa using code)]
    generalize (text.indentation.count ' ' + unit.spacesPerLevel - 1) / unit.spacesPerLevel = level
      at levels ⊢
    rw [wordOf_eq (by omega) (by omega), Nat.cast_add]

/-- A depth is read as without a bound only when that sum fits, or when there are no spaces. -/
theorem wordDepth_eq_iff
    {unit : IndentUnit}
    (word : unit.spacesPerLevel ≤ 2 ^ 63)
    {text : Text}
    (short : text.indentation.length ≤ longestText)
    (code : text.all isIndentChar = false) :
    unit.wordDepth text = unit.depth text ↔
      text.indentation.count ' ' = 0 ∨
        text.indentation.count ' ' + unit.spacesPerLevel ≤ 2 ^ 63 := by
  constructor
  · intro same
    by_contra wrong
    obtain ⟨some, wraps⟩ := not_or.mp wrong
    have counts := count_tab_add_count_space_le text
    have positive := unit.levels_pos some
    unfold longestText at short
    obtain ⟨low, high⟩ := unit.wordLevels_nonpos (Nat.lt_of_not_le wraps) (by omega)
    rw [wordDepth, if_neg (by simp [code]), wordOf_eq (by omega) (by omega),
      depth_of_code unit code] at same
    omega
  · rintro (none | fits)
    · exact wordDepth_eq short (by rw [none, Nat.zero_add]; exact word)
    · exact wordDepth_eq short fits

/-- What a machine that has room for some levels makes of a line. -/
theorem wordReindent_eq
    {unit : IndentUnit}
    {depth : Nat}
    (held : unit.Holds depth)
    (text : Text) :
    unit.wordReindent text depth = .ok (unit.reindent text depth) := by
  rw [wordReindent, wordLead_eq held]
  rfl

theorem length_lead
    (unit : IndentUnit)
    (depth : Nat) :
    (unit.lead depth).length = depth * unit.step := by
  unfold lead step
  split
  · exact List.length_replicate
  · rw [List.length_replicate, Nat.mul_one]

/-- A line is found at the depth it was given when the machine has room for that depth. -/
theorem wordDepth_reindent
    {unit : IndentUnit}
    (word : unit.spacesPerLevel ≤ 2 ^ 63)
    {depth : Nat}
    (held : unit.Holds depth)
    {text : Text}
    (code : text.all isIndentChar = false) :
    unit.wordDepth (unit.reindent text depth) = depth := by
  have length : (unit.reindent text depth).indentation.length = depth * unit.step := by
    rw [indentation_reindent, length_lead]
  have short : (unit.reindent text depth).indentation.length ≤ longestText :=
    length ▸ held
  have found := unit.depth_reindent code depth
  rw [wordDepth_eq short, found]
  have counts := count_tab_add_count_space_le (unit.reindent text depth)
  by_cases spaced : unit.writesSpaces = true
  · cases depth with
    | zero =>
        omega
    | succ depth =>
        have width : unit.spacesPerLevel ≤ longestText := by
          rw [spacesPerLevel_of_writesSpaces spaced]
          exact (Nat.le_mul_of_pos_left _ (Nat.succ_pos depth)).trans held
        unfold longestText at short width
        omega
  · have four : unit.spacesPerLevel = 4 := by
      rw [spacesPerLevel, if_neg spaced]
    unfold longestText at short
    omega

/-- Whitespace that a machine has no room for is too short once its length wrapped around. -/
theorem wordLead_of_not_holds
    {unit : IndentUnit}
    {depth : Nat}
    (crowded : ¬unit.Holds depth)
    {leading : Text}
    (written : unit.wordLead depth = .ok leading) :
    unit.writesSpaces = true ∧
      ∃ count : Nat,
        count ≤ longestText ∧ count + 2 ^ 64 ≤ depth * unit.step ∧
          leading = List.replicate count ' ' := by
  unfold Holds at crowded
  have deep : ¬(depth : Int) ≤ 0 := by
    rintro flat
    obtain rfl : depth = 0 := by
      omega
    simp at crowded
  rw [wordLead, if_neg deep] at written
  by_cases spaced : unit.writesSpaces = true
  · rw [if_pos spaced, wordRepeat_eq_ok_iff, ← step_of_writesSpaces spaced, ← Nat.cast_mul]
      at written
    obtain ⟨counts, short, isLead⟩ := written
    refine ⟨spaced, _, Int.toNat_le.mpr short, ?_, isLead⟩
    generalize depth * unit.step = product at crowded counts short ⊢
    have wraps : (2 ^ 64 : Int) ∣ product - wordOf product :=
      Int.dvd_self_sub_bmod
    unfold longestText at *
    omega
  · rw [if_neg spaced, wordRepeat_eq_ok_iff] at written
    rw [step, if_neg spaced, Nat.mul_one] at crowded
    exact absurd (Int.ofNat_le.mp written.2.1) crowded

/-- A line that a machine has no room for is not found at the depth it was given. -/
theorem wordDepth_ne_of_not_holds
    {unit : IndentUnit}
    (word : unit.spacesPerLevel ≤ 2 ^ 63)
    {depth : Nat}
    (crowded : ¬unit.Holds depth)
    {text moved : Text}
    (code : text.all isIndentChar = false)
    (written : unit.wordReindent text depth = .ok moved) :
    unit.wordDepth moved ≠ depth := by
  unfold wordReindent at written
  cases led : unit.wordLead depth with
  | error breakdown =>
      rw [led] at written
      cases written
  | ok leading =>
      rw [led] at written
      obtain rfl : leading ++ text.dropIndentation = moved :=
        Except.ok.inj written
      obtain ⟨spaced, count, short, wraps, rfl⟩ := wordLead_of_not_holds crowded led
      have indents : ∀ character ∈ List.replicate count ' ', isIndentChar character = true := by
        intro character member
        rw [List.eq_of_mem_replicate member]
        decide
      have found :
          unit.wordDepth (List.replicate count ' ' ++ text.dropIndentation) =
            wordOf (unit.wordLevels count) := by
        rw [wordDepth, if_neg (by rw [Text.all_isIndentChar_append_code indents, code]; decide),
          Text.indentation_append_code indents]
        simp [List.count_replicate]
      have positive := unit.spacesPerLevel_pos
      unfold longestText at short
      rw [found]
      rw [← spacesPerLevel_of_writesSpaces spaced] at wraps
      by_cases fits : count + unit.spacesPerLevel ≤ 2 ^ 63
      · have levels := unit.levels_le count
        have shallow : (count + unit.spacesPerLevel - 1) / unit.spacesPerLevel < depth := by
          rw [Nat.div_lt_iff_lt_mul positive]
          omega
        rw [wordLevels_eq fits]
        generalize (count + unit.spacesPerLevel - 1) / unit.spacesPerLevel = level
          at levels shallow ⊢
        rw [wordOf_eq (by omega) (by omega)]
        omega
      · have deep : depth ≠ 0 := by
          rintro rfl
          omega
        obtain ⟨low, high⟩ := unit.wordLevels_nonpos (Nat.lt_of_not_le fits) (by omega)
        rw [wordOf_eq low (by omega)]
        omega

/-! ## Levels taken off again -/

/-- Levels that a machine takes off are those it has room for one of. -/
theorem wordDropLevels_eq
    {unit : IndentUnit}
    (held : unit.Holds 1)
    (levels : Nat)
    (text : Text) :
    unit.wordDropLevels levels text = .ok (unit.dropLevels levels text) := by
  induction levels generalizing text with
  | zero =>
      rfl
  | succ levels inductionHypothesis =>
      rw [wordDropLevels, dropLevels, dropLevel?]
      cases tabbed : text.afterHead? ['\t'] with
      | some rest =>
          exact inductionHypothesis rest
      | none =>
          by_cases spaced : unit.writesSpaces = true
          · have level : wordRepeat unit.width ' ' = .ok (unit.lead 1) := by
              have wide := (writesSpaces_iff unit).mp spaced
              rw [wordRepeat_eq_ok_iff, ← step_of_writesSpaces spaced, lead, if_pos spaced, step,
                if_pos spaced, Nat.one_mul, Int.toNat_natCast]
              unfold Holds at held
              rw [step, if_pos spaced, Nat.one_mul] at held
              exact ⟨by omega, by exact_mod_cast held, rfl⟩
            simp only [spaced, if_true, level]
            cases headed : text.afterHead? (unit.lead 1) with
            | some rest =>
                exact inductionHypothesis rest
            | none =>
                rfl
          · simp [spaced]

/-- A machine with room for the levels moves a line as far as without a bound. -/
theorem wordShift_eq
    {unit : IndentUnit}
    {levels : Int}
    (toTheRight : unit.Holds levels.toNat)
    (toTheLeft : levels < 0 → unit.Holds 1)
    (text : Text) :
    unit.wordShift levels text = .ok (unit.shift levels text) := by
  unfold wordShift shift
  split
  · rename_i right
    have count : ((levels.toNat : Nat) : Int) = levels := by
      omega
    rw [← count, wordLead_eq toTheRight, Int.toNat_natCast]
    rfl
  · by_cases stays : levels = 0
    · rw [stays]
      rfl
    · exact wordDropLevels_eq (toTheLeft (by omega)) _ text

/-- The width of a unit that a machine holds is a word. -/
theorem spacesPerLevel_le
    {unit : IndentUnit}
    (word : unit.width < 2 ^ 63) :
    unit.spacesPerLevel ≤ 2 ^ 63 := by
  unfold spacesPerLevel
  split <;> omega

/--
A line with code that a machine gives a number of levels is found at that depth
exactly when the machine has room for the whitespace of as many levels, whatever
stood in front of the line.  Giving a line a depth makes the depth it had before
forgotten, and moving it to the right and back by as many levels restores it.  The
depth of a line is the number of its leading tabs and, rounded up, of the levels
that its leading spaces fill, in whichever order they stand, exactly when the sum
of those spaces and the width of a level does not wrap around.
-/
theorem indentation_adds_up_within_room
    {unit : IndentUnit}
    (word : unit.width < 2 ^ 63)
    {text : Text}
    (short : text.length ≤ longestText)
    (code : text.all isIndentChar = false) :
    (∀ depth : Nat,
      (∃ moved, unit.wordReindent text depth = .ok moved ∧ unit.wordDepth moved = depth) ↔
        unit.Holds depth) ∧
      (∀ first second : Nat, unit.Holds first → unit.Holds second →
        (unit.wordReindent text first).bind (unit.wordReindent · second) =
          unit.wordReindent text second) ∧
      (∀ levels : Int, 0 ≤ levels → unit.Holds levels.toNat →
        (unit.wordShift levels text).bind (unit.wordShift (-levels)) = .ok text) ∧
      (unit.wordDepth text =
          text.indentation.count '\t' +
            ⌈(text.indentation.count ' ' : ℚ) /
              (if unit.tab = true ∨ unit.width ≤ 0 then 4 else (unit.width : ℚ))⌉₊ ↔
        text.indentation.count ' ' = 0 ∨
          text.indentation.count ' ' + unit.spacesPerLevel ≤ 2 ^ 63) := by
  have wordWidth := spacesPerLevel_le word
  refine ⟨?_, ?_, ?_, ?_⟩
  · intro depth
    constructor
    · rintro ⟨moved, written, found⟩
      by_contra crowded
      exact wordDepth_ne_of_not_holds wordWidth crowded code written found
    · intro held
      exact ⟨_, wordReindent_eq held text, wordDepth_reindent wordWidth held code⟩
  · intro first second heldFirst heldSecond
    rw [wordReindent_eq heldFirst, Except.bind, wordReindent_eq heldSecond,
      wordReindent_eq heldSecond, reindent_reindent]
  · intro levels right held
    have there := wordShift_eq held (fun left => absurd right (Int.not_le.mpr left)) text
    have back := wordShift_eq (held.mono (by omega : (-levels).toNat ≤ levels.toNat))
      (fun left => held.mono (by omega)) (unit.shift levels text)
    rw [there, Except.bind, back, unit.shift_neg_shift right]
  · have leading : text.indentation.length ≤ longestText :=
      (List.takeWhile_prefix _).length_le.trans short
    rw [← wordDepth_eq_iff wordWidth leading code, unit.depth_eq code]
    norm_cast

/-- Three spaces around a tab make two levels of two, besides the tab. -/
theorem indentation_adds_up_around_tab :
    let unit := spaces 2
    let text : Text := "  \t x".toList
    (unit.width < 2 ^ 63 ∧ text.length ≤ longestText ∧ text.all isIndentChar = false) ∧
      (∃ moved, unit.wordReindent text 5 = .ok moved ∧ unit.wordDepth moved = 5) ∧
      (unit.wordShift 3 text).bind (unit.wordShift (-3)) = .ok text ∧
      unit.wordDepth text = 1 + ⌈(3 : ℚ) / 2⌉₊ := by
  intro unit text
  have word : unit.width < 2 ^ 63 := by
    decide
  have short : text.length ≤ longestText := by
    decide
  have code : text.all isIndentChar = false := by
    decide
  have tabCount : text.indentation.count '\t' = 1 := by
    decide
  have spaceCount : text.indentation.count ' ' = 3 := by
    decide
  obtain ⟨found, _, back, counted⟩ := indentation_adds_up_within_room word short code
  have reached := counted.mpr (.inr (by rw [spaceCount]; decide))
  rw [tabCount, spaceCount] at reached
  refine ⟨⟨word, short, code⟩, (found 5).mpr ?_, back 3 (by decide) ?_, ?_⟩
  · unfold Holds
    decide
  · unfold Holds
    decide
  · simpa [unit, spaces] using reached

/-- With the greatest width, two spaces count backwards; with half of it, four levels vanish. -/
theorem wide_unit_counts_backwards :
    let text : Text := "  x".toList
    let widest := spaces (2 ^ 63 - 1)
    let half := spaces (2 ^ 62)
    text.all isIndentChar = false ∧
      (1 ≤ widest.width ∧ widest.wordDepth text = -1 ∧
        text.indentation.count '\t' +
          ⌈(text.indentation.count ' ' : ℚ) / (widest.width : ℚ)⌉₊ = 1) ∧
      1 ≤ half.width ∧
        (∃ moved, half.wordReindent text 4 = .ok moved ∧ half.wordDepth moved = 0) ∧
        (half.wordReindent text 2).isOk = false := by
  intro text widest half
  refine ⟨by decide, ⟨by decide, by decide, ?_⟩, by decide, ⟨"x".toList, by rfl, by decide⟩, by decide⟩
  have tabCount : text.indentation.count '\t' = 0 := by
    decide
  have spaceCount : text.indentation.count ' ' = 2 := by
    decide
  have oneLevel : ⌈((2 : Nat) : ℚ) / (widest.width : ℚ)⌉₊ = 1 := by
    rw [Nat.ceil_eq_iff one_ne_zero]
    norm_num [widest, spaces]
  rw [tabCount, spaceCount, oneLevel]

end IndentUnit

end ScriptUplift
