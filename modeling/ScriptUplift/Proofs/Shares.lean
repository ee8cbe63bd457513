import Mathlib.Algebra.BigOperators.Group.List.Basic
import Mathlib.Algebra.Order.Ring.Int
import Mathlib.Tactic.Common
import ScriptUplift.Proofs.Succession

namespace ScriptUplift

/-!
# What files add to a summary

Every number of a summary follows from the number of files and from the results,
changes and failures that were added: `extend` adds any number of them at once.
A file adds one result or one failure, so that a file that fails shows in the
failures and in the number of files only.
-/

/-- The counters a result adds. -/
def FileResult.counters
    (result : FileResult) :
    List (String × Int) :=
  (result.report.map (·.counters.entries)).getD []

/-- The fixes a result adds. -/
def FileResult.fixes
    (result : FileResult) :
    Int :=
  (result.report.map (·.fixes)).getD 0

/-- The number of issues a result adds. -/
def FileResult.unresolved
    (result : FileResult) :
    Nat :=
  (result.report.map (·.issues.length)).getD 0

/-- Add counters one after another. -/
def Tally.addAll
    (tally : Tally)
    (entries : List (String × Int)) :
    Tally :=
  entries.foldl (fun sum entry => sum.add entry.1 entry.2) tally

namespace Summary

/-- Add files with their results, changes and failures. -/
def extend
    (summary : Summary)
    (count : Nat)
    (results : List FileResult)
    (changes : List FileChange)
    (failures : List FileFailure) :
    Summary where
  scanned := summary.scanned + count
  modified := summary.modified + changes.length
  cached := summary.cached + results.countP (·.cached)
  fixes := summary.fixes + (results.map (·.fixes)).sum
  unresolved := summary.unresolved + (results.map (·.unresolved)).sum
  ruleTotals := summary.ruleTotals.addAll (results.flatMap (·.counters))
  changes := summary.changes ++ changes
  failures := summary.failures ++ failures
  results := summary.results ++ results

@[simp] theorem extend_nil
    (summary : Summary) :
    summary.extend 0 [] [] [] = summary := by
  simp [extend, Tally.addAll]

theorem extend_extend
    (summary : Summary)
    (count more : Nat)
    (results moreResults : List FileResult)
    (changes moreChanges : List FileChange)
    (failures moreFailures : List FileFailure) :
    (summary.extend count results changes failures).extend more moreResults moreChanges
        moreFailures =
      summary.extend (count + more) (results ++ moreResults) (changes ++ moreChanges)
        (failures ++ moreFailures) := by
  simp [extend, Tally.addAll, add_assoc]

theorem merge_eq_extend
    (summary : Summary)
    (result : FileResult)
    (change : Option FileChange) :
    summary.merge result change = summary.extend 1 [result] change.toList [] := by
  unfold merge extend
  cases reported : result.report with
  | none =>
      simp [FileResult.counters, FileResult.fixes, FileResult.unresolved, reported, Tally.addAll,
        List.countP_cons]
  | some report =>
      simp [FileResult.counters, FileResult.fixes, FileResult.unresolved, reported, Tally.addAll,
        List.countP_cons, addReport, Tally.merge]

theorem fail_eq_extend
    (summary : Summary)
    (path : String)
    (fault : Fault) :
    summary.fail path fault = summary.extend 1 [] [] [⟨path, fault⟩] := by
  simp [fail, extend, Tally.addAll]

end Summary

theorem Collector.addAll_append
    (collector : Collector)
    (first second : List Record) :
    collector.addAll (first ++ second) = (collector.addAll first).addAll second := by
  simp [addAll]

namespace Migration

namespace Forecast

/-- The result a file adds. -/
def results
    (forecast : Forecast) :
    List FileResult :=
  match forecast.outcome with
  | .error _ => []
  | .ok (result, _) => [result]

/-- The change a file adds. -/
def changes
    (forecast : Forecast) :
    List FileChange :=
  match forecast.outcome with
  | .error _ => []
  | .ok (_, change) => change.toList

theorem length_results_le
    (forecast : Forecast) :
    forecast.results.length ≤ 1 := by
  unfold results
  split <;> simp

theorem length_changes_le
    (forecast : Forecast) :
    forecast.changes.length ≤ 1 := by
  unfold changes
  split
  · exact Nat.zero_le 1
  · rename_i change _
    cases change <;> simp

/-- The failure a file adds. -/
def failure?
    (forecast : Forecast)
    (relative : String) :
    Option FileFailure :=
  match forecast.outcome with
  | .error fault => some ⟨relative, fault⟩
  | .ok _ => none

/-- The records a file adds. -/
def records
    (forecast : Forecast) :
    List Record :=
  (forecast.results.filter (!·.cached)).flatMap (·.records)

theorem count_eq_extend
    (forecast : Forecast)
    (relative : String)
    (summary : Summary) :
    forecast.count relative summary =
      summary.extend 1 forecast.results forecast.changes (forecast.failure? relative).toList := by
  unfold count results changes failure?
  cases forecast.outcome with
  | error fault =>
      exact Summary.fail_eq_extend summary relative fault
  | ok pair =>
      exact Summary.merge_eq_extend summary pair.1 pair.2

theorem gather_eq_addAll
    (forecast : Forecast)
    (collector : Collector) :
    forecast.gather collector = collector.addAll forecast.records := by
  unfold gather records results
  cases forecast.outcome with
  | error fault =>
      rfl
  | ok pair =>
      obtain ⟨result, change⟩ := pair
      cases cached : result.cached with
      | false =>
          simp [cached, Collector.consume]
      | true =>
          simp [cached, Collector.addAll]

end Forecast

namespace Setup

variable {setup : Setup} {state : State}

/-- The summary of files holds their results, changes and failures. -/
theorem foldl_countIn
    (files : List FoundFile)
    (summary : Summary) :
    files.foldl (setup.countIn state) summary =
      summary.extend files.length
        (files.flatMap fun file => (setup.forecastAt state file).results)
        (files.flatMap fun file => (setup.forecastAt state file).changes)
        (files.filterMap fun file => (setup.forecastAt state file).failure? file.relative) := by
  induction files generalizing summary with
  | nil =>
      simp
  | cons file rest inductionHypothesis =>
      rw [List.foldl_cons, inductionHypothesis, countIn, Forecast.count_eq_extend,
        Summary.extend_extend]
      cases failed : (setup.forecastAt state file).failure? file.relative with
      | none =>
          simp [List.flatMap_cons, failed, add_comm]
      | some failure =>
          simp [List.flatMap_cons, failed, add_comm]

theorem foldl_gatherIn
    (files : List FoundFile)
    (collector : Collector) :
    files.foldl (setup.gatherIn state) collector =
      collector.addAll (files.flatMap fun file => (setup.forecastAt state file).records) := by
  induction files generalizing collector with
  | nil =>
      rfl
  | cons file rest inductionHypothesis =>
      rw [List.foldl_cons, inductionHypothesis, gatherIn, Forecast.gather_eq_addAll,
        List.flatMap_cons, Collector.addAll_append]

/-- A file fails and is left alone, or its result and its change are reported under its name. -/
theorem forecast_outcome_cases
    (setup : Setup)
    (state : State)
    (file : FoundFile) :
    (∃ fault, (setup.forecastAt state file).outcome = .error fault ∧
        (setup.forecastAt state file).written? = none ∧
        (setup.forecastAt state file).remembered? = none) ∨
      ∃ result change,
        (setup.forecastAt state file).outcome = .ok (result, change) ∧
          result.path = file.place.path ∧
          result.relative = file.relative ∧
          ∀ made ∈ change, made.path = file.relative := by
  unfold forecastAt forecast forecastRead
  split
  · exact .inl ⟨_, rfl, rfl, rfl⟩
  · rename_i content
    unfold forecastOf
    split
    · exact .inr ⟨_, _, rfl, rfl, rfl, by simp⟩
    · unfold forecastRun
      split
      · unfold forecastPassed
        split
        · exact .inl ⟨_, rfl, rfl, rfl⟩
        · refine .inr ⟨_, _, rfl, rfl, rfl, ?_⟩
          intro made isMade
          unfold changeOf at isMade
          split at isMade
          · cases isMade
          · obtain rfl := Option.some.inj isMade
            rfl
      · exact .inl ⟨_, rfl, rfl, rfl⟩
      · exact .inl ⟨_, rfl, rfl, rfl⟩

theorem path_of_mem_results
    {file : FoundFile}
    {result : FileResult}
    (member : result ∈ (setup.forecastAt state file).results) :
    result.path = file.place.path ∧ result.relative = file.relative := by
  rcases forecast_outcome_cases setup state file with
    ⟨fault, failed, _⟩ | ⟨own, change, passed, isPath, isRelative, _⟩
  · simp [Forecast.results, failed] at member
  · obtain rfl : result = own := by
      simpa [Forecast.results, passed] using member
    exact ⟨isPath, isRelative⟩

theorem path_of_mem_changes
    {file : FoundFile}
    {change : FileChange}
    (member : change ∈ (setup.forecastAt state file).changes) :
    change.path = file.relative := by
  rcases forecast_outcome_cases setup state file with
    ⟨fault, failed, _⟩ | ⟨result, own, passed, _, _, isPath⟩
  · simp [Forecast.changes, failed] at member
  · exact isPath change (by simpa [Forecast.changes, passed] using member)

end Setup

end Migration

end ScriptUplift
