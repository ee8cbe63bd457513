import Mathlib.Algebra.Order.BigOperators.Group.List
import Mathlib.Algebra.Order.Monoid.Canonical.Defs
import Mathlib.Algebra.Order.Ring.Nat
import Mathlib.Data.List.Forall2
import Mathlib.Tactic.Common
import ScriptUplift.Proofs.Indentation
import ScriptUplift.Proofs.Replacement
import ScriptUplift.Uplift.Engine

namespace ScriptUplift

/-!
# What a rule does to a file

A rule either matches no line, and then leaves the file alone, or counts at
least once.  Every line leaves lines of its own number, code leaves code, and
only the two field rules leave more than one line.
-/

/-- Each line gets the result of the rule under some line above it. -/
theorem applyToEach_forall₂
    (rule : UpliftRule)
    (above : Text)
    (lines : List Line) :
    List.Forall₂ (fun line result => ∃ higher, result = applyToLine rule higher line)
      lines (applyToEach rule above lines) := by
  induction lines generalizing above with
  | nil =>
      exact .nil
  | cons line rest inductionHypothesis =>
      exact .cons ⟨above, rfl⟩ (inductionHypothesis line.text)

/-- A rule leaves a line alone or replaces its text by the lines of a replacement. -/
theorem applyToLine_cases
    (rule : UpliftRule)
    (above : Text)
    (line : Line) :
    applyToLine rule above line = ([line], none) ∨
      ∃ replacement,
        line.isStatement = true ∧
          rule.apply above line.text = some replacement ∧
          applyToLine rule above line =
            ({ line with text := replacement.first } ::
                replacement.others.map fun text => { number := line.number, text := text },
              some replacement.count) := by
  unfold applyToLine
  split
  · rename_i statement
    cases matched : rule.apply above line.text with
    | none =>
        exact .inl rfl
    | some replacement =>
        exact .inr ⟨replacement, statement, rfl, rfl⟩
  · exact .inl rfl

theorem number_of_mem_applyToLine
    {rule : UpliftRule}
    {above : Text}
    {line out : Line}
    (member : out ∈ (applyToLine rule above line).1) :
    out.number = line.number := by
  rcases applyToLine_cases rule above line with same | ⟨replacement, _, _, replaced⟩
  · rw [same, List.mem_singleton] at member
    rw [member]
  · rw [replaced] at member
    rcases List.mem_cons.mp member with rfl | isOther
    · rfl
    · obtain ⟨text, _, rfl⟩ := List.mem_map.mp isOther
      rfl

/-- A line with code leaves one with code. -/
theorem exists_visible_mem_applyToLine
    (rule : UpliftRule)
    (above : Text)
    {line : Line}
    (visible : line.text.isBlank = false) :
    ∃ out ∈ (applyToLine rule above line).1, out.text.isBlank = false := by
  rcases applyToLine_cases rule above line with same | ⟨replacement, _, matched, replaced⟩
  · rw [same]
    exact ⟨line, List.mem_singleton.mpr rfl, visible⟩
  · obtain ⟨_, text, isText, textVisible⟩ := UpliftRule.apply_spec matched
    rw [replaced]
    rcases List.mem_cons.mp isText with rfl | isOther
    · exact ⟨_, List.mem_cons_self, textVisible⟩
    · exact ⟨_, List.mem_cons_of_mem _ (List.mem_map_of_mem isOther), textVisible⟩

/-- A rule that does not split lines leaves one line of each. -/
theorem numbers_applyToLine_of_not_splits
    {rule : UpliftRule}
    (whole : rule.splits = false)
    (above : Text)
    (line : Line) :
    (applyToLine rule above line).1.map (·.number) = [line.number] := by
  rcases applyToLine_cases rule above line with same | ⟨replacement, _, matched, replaced⟩
  · rw [same]
    rfl
  · obtain ⟨noOthers, _, _⟩ := UpliftRule.apply_spec_of_not_splits whole matched
    rw [replaced, noOthers]
    rfl

theorem pos_of_applyToLine_eq_some
    {rule : UpliftRule}
    {above : Text}
    {line : Line}
    {count : Nat}
    (counted : (applyToLine rule above line).2 = some count) :
    0 < count := by
  rcases applyToLine_cases rule above line with same | ⟨replacement, _, matched, replaced⟩
  · simp [same] at counted
  · rw [replaced] at counted
    rw [← Option.some.inj counted]
    exact (UpliftRule.apply_spec matched).1

/-- Over a file, a rule that does not split lines keeps their numbers. -/
theorem numbers_applyToEach_of_not_splits
    {rule : UpliftRule}
    (whole : rule.splits = false)
    (above : Text)
    (lines : List Line) :
    ((applyToEach rule above lines).flatMap Prod.fst).map (·.number) =
      lines.map (·.number) := by
  induction lines generalizing above with
  | nil =>
      rfl
  | cons line rest inductionHypothesis =>
      simp only [applyToEach, List.flatMap_cons, List.map_append, List.map_cons,
        numbers_applyToLine_of_not_splits whole, inductionHypothesis]
      rfl

/-- The replacements of a file are at least as many as its matches. -/
theorem pos_total_of_counts
    {rule : UpliftRule}
    {above : Text}
    {lines : List Line}
    (matched : (applyToEach rule above lines).filterMap Prod.snd ≠ []) :
    0 < ((applyToEach rule above lines).filterMap Prod.snd).foldr (· + ·) 0 := by
  obtain ⟨count, isCount⟩ := List.exists_mem_of_ne_nil _ matched
  obtain ⟨result, isResult, counted⟩ := List.mem_filterMap.mp isCount
  obtain ⟨line, _, higher, rfl⟩ :=
    exists_left_of_forall₂ (applyToEach_forall₂ rule above lines) isResult
  have positive := pos_of_applyToLine_eq_some counted
  have atMost : count ≤ ((applyToEach rule above lines).filterMap Prod.snd).sum :=
    List.le_sum_of_mem isCount
  exact Nat.lt_of_lt_of_le positive atMost

namespace Source

/-- A rule leaves a file without a match alone, and counts its matches otherwise. -/
theorem applyEverywhere_cases
    (source : Source)
    (rule : UpliftRule) :
    ((applyToEach rule [] source.lines).filterMap Prod.snd = [] ∧
        source.applyEverywhere rule = source) ∨
      ∃ total : Nat,
        0 < total ∧
          source.applyEverywhere rule =
            (({ source with lines := (applyToEach rule [] source.lines).flatMap Prod.fst }).count
              rule.name total).refresh := by
  unfold applyEverywhere
  dsimp only
  split
  · rename_i unmatched
    exact .inl ⟨List.isEmpty_iff.mp unmatched, rfl⟩
  · rename_i matched
    exact .inr ⟨_, pos_total_of_counts fun empty => matched (List.isEmpty_iff.mpr empty), rfl⟩

end Source

end ScriptUplift
