import Mathlib.Data.List.Perm.Basic
import Mathlib.Tactic.Common
import ScriptUplift.Proofs.FileOrder

namespace ScriptUplift

/-!
# The accounts of a summary

A summary keeps lists of what was reported to it and running totals beside
them.  Whatever happens to it, in whatever order, every total is what the lists
account for: each step keeps the balance, and a new summary is balanced.
-/

namespace Tally

theorem total_eq_sum
    (tally : Tally) :
    tally.total = (tally.entries.map Prod.snd).sum :=
  rfl

theorem sum_bump
    {name : String}
    {entries : List (String × Int)}
    (known : name ∈ entries.map Prod.fst)
    (amount : Int) :
    ((bump name amount entries).map Prod.snd).sum = (entries.map Prod.snd).sum + amount := by
  induction entries with
  | nil =>
      cases known
  | cons entry rest inductionHypothesis =>
      obtain ⟨first, value⟩ := entry
      unfold bump
      by_cases same : first = name
      · rw [if_pos same, List.map_cons, List.map_cons, List.sum_cons, List.sum_cons]
        omega
      · have inRest : name ∈ rest.map Prod.fst :=
          (List.mem_cons.mp known).resolve_left (Ne.symm same)
        rw [if_neg same, List.map_cons, List.map_cons, List.sum_cons, List.sum_cons,
          inductionHypothesis inRest, add_assoc]

/-- What is added under a name is added to the sum of all counts. -/
theorem total_add
    (tally : Tally)
    (name : String)
    (amount : Int) :
    (tally.add name amount).total = tally.total + amount := by
  unfold add
  split
  · rename_i known
    exact sum_bump (by simpa [names] using known) amount
  · simp [total_eq_sum]

theorem total_addAll
    (tally : Tally)
    (entries : List (String × Int)) :
    (tally.addAll entries).total = tally.total + (entries.map Prod.snd).sum := by
  unfold addAll
  induction entries generalizing tally with
  | nil =>
      simp
  | cons entry rest inductionHypothesis =>
      rw [List.foldl_cons, inductionHypothesis, total_add, List.map_cons, List.sum_cons, add_assoc]

/-- A name is registered by counting nothing under it. -/
theorem register_eq_addAll
    (tally : Tally)
    (registered : List String) :
    tally.register registered = tally.addAll (registered.map fun name => (name, 0)) := by
  unfold register addAll
  rw [List.foldl_map]

theorem total_register
    (tally : Tally)
    (registered : List String) :
    (tally.register registered).total = tally.total := by
  simp [register_eq_addAll, total_addAll, Function.comp_def]

theorem count_addAll
    (tally : Tally)
    (entries : List (String × Int))
    (name : String) :
    (tally.addAll entries).count name =
      tally.count name + ((entries.filter (·.1 = name)).map Prod.snd).sum := by
  conv_lhs => unfold count
  rw [get?_addAll]
  split
  · rfl
  · rename_i unknown
    have nothing : entries.filter (·.1 = name) = [] := by
      rw [List.filter_eq_nil_iff]
      intro entry member same
      exact unknown (List.mem_map.mpr ⟨entry, member, of_decide_eq_true same⟩)
    rw [nothing, List.map_nil, List.sum_nil, add_zero]
    rfl

theorem mem_names_iff
    {tally : Tally}
    {name : String} :
    name ∈ tally.names ↔ (tally.get? name).isSome = true := by
  unfold get? names
  rw [lookup_isSome_iff, List.contains_eq_mem, decide_eq_true_eq]

/-- The names that are known are those of before and those that are added. -/
theorem mem_names_addAll
    {tally : Tally}
    {entries : List (String × Int)}
    {name : String} :
    name ∈ (tally.addAll entries).names ↔ name ∈ tally.names ∨ name ∈ entries.map Prod.fst := by
  rw [mem_names_iff, mem_names_iff, get?_addAll]
  split
  · rename_i added
    simp [added]
  · rename_i unknown
    simp [unknown]

/-- What stands under the name of a counter adds up to its count. -/
theorem Distinct.sum_entries
    {tally : Tally}
    (distinct : tally.Distinct)
    (name : String) :
    ((tally.entries.filter (·.1 = name)).map Prod.snd).sum = tally.count name := by
  obtain ⟨entries⟩ := tally
  unfold Distinct names at distinct
  unfold count get?
  induction entries with
  | nil =>
      rfl
  | cons entry rest inductionHypothesis =>
      obtain ⟨known, value⟩ := entry
      obtain ⟨absent, restDistinct⟩ := List.nodup_cons.mp distinct
      by_cases same : known = name
      · subst same
        have nothing : rest.filter (·.1 = known) = [] := by
          rw [List.filter_eq_nil_iff]
          intro other member sameName
          exact absent (List.mem_map.mpr ⟨other, member, of_decide_eq_true sameName⟩)
        simp [nothing]
      · rw [List.filter_cons_of_neg (by simpa using same), inductionHypothesis restDistinct,
          Entries.lookup_cons_of_ne (Ne.symm same)]

end Tally

namespace FileResult

/-- The count a result reports under a name. -/
def count
    (result : FileResult)
    (name : String) :
    Int :=
  (result.report.map (·.counters.count name)).getD 0

/-- A result counts no name twice. -/
def CountsOnce
    (result : FileResult) :
    Prop :=
  ∀ report ∈ result.report, report.counters.Distinct

instance (tally : Tally) : Decidable tally.Distinct :=
  inferInstanceAs (Decidable tally.names.Nodup)

instance (result : FileResult) : Decidable result.CountsOnce :=
  inferInstanceAs (Decidable (∀ report ∈ result.report, report.counters.Distinct))

theorem CountsOnce.sum_counters
    {result : FileResult}
    (once : result.CountsOnce)
    (name : String) :
    ((result.counters.filter (·.1 = name)).map Prod.snd).sum = result.count name := by
  unfold counters count
  cases reported : result.report with
  | none =>
      rfl
  | some report =>
      exact (once report reported).sum_entries name

/-- All that a result counts are its fixes. -/
theorem sum_counters
    (result : FileResult) :
    (result.counters.map Prod.snd).sum = result.fixes := by
  unfold counters fixes
  cases result.report <;> rfl

theorem sum_flatMap_fixes
    (results : List FileResult) :
    ((results.flatMap (·.counters)).map Prod.snd).sum = (results.map (·.fixes)).sum := by
  induction results with
  | nil =>
      rfl
  | cons result rest inductionHypothesis =>
      rw [List.flatMap_cons, List.map_append, List.sum_append, sum_counters, inductionHypothesis,
        List.map_cons, List.sum_cons]

/-- What results count under a name is the sum of their counts. -/
theorem sum_flatMap_counters
    {results : List FileResult}
    (once : ∀ result ∈ results, result.CountsOnce)
    (name : String) :
    (((results.flatMap (·.counters)).filter (·.1 = name)).map Prod.snd).sum =
      (results.map (·.count name)).sum := by
  induction results with
  | nil =>
      rfl
  | cons result rest inductionHypothesis =>
      obtain ⟨own, others⟩ := List.forall_mem_cons.mp once
      rw [List.flatMap_cons, List.filter_append, List.map_append, List.sum_append,
        own.sum_counters, inductionHypothesis others, List.map_cons, List.sum_cons]

end FileResult

/-- What can happen to a summary. -/
inductive SummaryStep
  | register (names : List String)
  | merge (result : FileResult) (change : Option FileChange)
  | fail (path : String) (fault : Fault)
  | sort
  deriving Repr, DecidableEq

namespace SummaryStep

/-- A summary after one more step. -/
def apply
    (summary : Summary) :
    SummaryStep → Summary
  | .register names => summary.register names
  | .merge result change => summary.merge result change
  | .fail path fault => summary.fail path fault
  | .sort => summary.sort

/-- The names a step registers. -/
def registered : SummaryStep → List String
  | .register names => names
  | .merge .. | .fail .. | .sort => []

/-- The result a step reports. -/
def results : SummaryStep → List FileResult
  | .merge result _ => [result]
  | .register _ | .fail .. | .sort => []

/-- The change a step reports. -/
def changes : SummaryStep → List FileChange
  | .merge _ change => change.toList
  | .register _ | .fail .. | .sort => []

/-- The failure a step reports. -/
def failures : SummaryStep → List FileFailure
  | .fail path fault => [⟨path, fault⟩]
  | .register _ | .merge .. | .sort => []

end SummaryStep

namespace Summary

/-- A new summary to which something happened. -/
def after
    (steps : List SummaryStep) :
    Summary :=
  steps.foldl SummaryStep.apply {}

/-- The totals of a summary are what its lists and the registered names account for. -/
structure Balanced
    (registered : List String)
    (summary : Summary) :
    Prop where
  scanned : summary.scanned = summary.results.length + summary.failures.length
  modified : summary.modified = summary.changes.length
  cached : summary.cached = summary.results.countP (·.cached)
  unresolved : summary.unresolved = (summary.results.map (·.unresolved)).sum
  counted : summary.fixes = summary.ruleTotals.total
  reported : summary.fixes = (summary.results.map (·.fixes)).sum
  totals : ∀ name, summary.ruleTotals.count name = (summary.results.map (·.count name)).sum
  known : ∀ name, name ∈ summary.ruleTotals.names ↔
    name ∈ registered ∨ ∃ result ∈ summary.results, name ∈ result.counters.map Prod.fst

/-- A summary lists, in some order, just what was reported. -/
structure Lists
    (summary : Summary)
    (results : List FileResult)
    (changes : List FileChange)
    (failures : List FileFailure) :
    Prop where
  results : summary.results.Perm results
  changes : summary.changes.Perm changes
  failures : summary.failures.Perm failures

namespace Balanced

variable {registered : List String} {summary : Summary}

/-- Nothing was registered and nothing reported to a new summary. -/
theorem empty :
    Balanced [] {} where
  scanned := rfl
  modified := rfl
  cached := rfl
  unresolved := rfl
  counted := rfl
  reported := rfl
  totals _ := rfl
  known _ := by simp [Tally.names]

theorem register
    (balanced : Balanced registered summary)
    (names : List String) :
    Balanced (registered ++ names) (summary.register names) where
  scanned := balanced.scanned
  modified := balanced.modified
  cached := balanced.cached
  unresolved := balanced.unresolved
  counted := balanced.counted.trans (Tally.total_register _ _).symm
  reported := balanced.reported
  totals name := (Tally.count_register _ _ _).trans (balanced.totals name)
  known name := by
    unfold Summary.register
    dsimp only
    rw [Tally.register_eq_addAll, Tally.mem_names_addAll, balanced.known, List.mem_append,
      or_right_comm]
    simp [Function.comp_def]

/-- Files are added with their results and failures. -/
theorem extend
    (balanced : Balanced registered summary)
    {results : List FileResult}
    (once : ∀ result ∈ results, result.CountsOnce)
    (changes : List FileChange)
    (failures : List FileFailure) :
    Balanced registered
      (summary.extend (results.length + failures.length) results changes failures) where
  scanned := by
    simp only [Summary.extend, List.length_append, balanced.scanned]
    omega
  modified := by
    simp only [Summary.extend, List.length_append, balanced.modified]
  cached := by
    simp only [Summary.extend, List.countP_append, balanced.cached]
  unresolved := by
    simp only [Summary.extend, List.map_append, List.sum_append, balanced.unresolved]
  counted := by
    simp only [Summary.extend, Tally.total_addAll, balanced.counted,
      FileResult.sum_flatMap_fixes]
  reported := by
    simp only [Summary.extend, List.map_append, List.sum_append, balanced.reported]
  totals name := by
    simp only [Summary.extend, Tally.count_addAll, balanced.totals,
      FileResult.sum_flatMap_counters once, List.map_append, List.sum_append]
  known name := by
    simp only [Summary.extend, Tally.mem_names_addAll, balanced.known, List.map_flatMap,
      List.mem_flatMap, List.mem_append, or_and_right, exists_or, or_assoc]

/-- The order of the lists does not count. -/
theorem sort
    (balanced : Balanced registered summary) :
    Balanced registered summary.sort := by
  have results := sortByPath_perm (·.path) summary.results
  have changes := sortByPath_perm (·.path) summary.changes
  have failures := sortByPath_perm (·.path) summary.failures
  constructor
  case scanned =>
    exact balanced.scanned.trans (congrArg₂ (· + ·) results.length_eq failures.length_eq).symm
  case modified =>
    exact balanced.modified.trans changes.length_eq.symm
  case cached =>
    exact balanced.cached.trans (results.countP_eq _).symm
  case unresolved =>
    exact balanced.unresolved.trans (results.map _).sum_eq.symm
  case counted =>
    exact balanced.counted
  case reported =>
    exact balanced.reported.trans (results.map _).sum_eq.symm
  case totals =>
    intro name
    exact (balanced.totals name).trans (results.map _).sum_eq.symm
  case known =>
    intro name
    refine (balanced.known name).trans (or_congr_right (exists_congr fun result => ?_))
    exact and_congr_left fun _ => results.mem_iff.symm

/-- Every step keeps the balance. -/
theorem apply
    (balanced : Balanced registered summary)
    {step : SummaryStep}
    (once : ∀ result ∈ step.results, result.CountsOnce) :
    Balanced (registered ++ step.registered) (step.apply summary) := by
  cases step with
  | register names =>
      exact balanced.register names
  | merge result change =>
      rw [SummaryStep.registered, List.append_nil, SummaryStep.apply, merge_eq_extend]
      exact balanced.extend once change.toList []
  | fail path fault =>
      rw [SummaryStep.registered, List.append_nil, SummaryStep.apply, fail_eq_extend]
      exact balanced.extend (List.forall_mem_nil _) [] [⟨path, fault⟩]
  | sort =>
      rw [SummaryStep.registered, List.append_nil]
      exact balanced.sort

theorem foldl_apply
    (balanced : Balanced registered summary)
    {steps : List SummaryStep}
    (once : ∀ result ∈ steps.flatMap SummaryStep.results, result.CountsOnce) :
    Balanced (registered ++ steps.flatMap SummaryStep.registered)
      (steps.foldl SummaryStep.apply summary) := by
  induction steps generalizing registered summary with
  | nil =>
      simpa using balanced
  | cons step rest inductionHypothesis =>
      rw [List.flatMap_cons, List.forall_mem_append] at once
      rw [List.flatMap_cons, ← List.append_assoc]
      exact inductionHypothesis (balanced.apply once.1) once.2

end Balanced

namespace Lists

theorem empty :
    Lists {} [] [] [] :=
  ⟨.nil, .nil, .nil⟩

variable {summary : Summary} {results : List FileResult} {changes : List FileChange}
  {failures : List FileFailure}

theorem extend
    (lists : Lists summary results changes failures)
    (count : Nat)
    (moreResults : List FileResult)
    (moreChanges : List FileChange)
    (moreFailures : List FileFailure) :
    Lists (summary.extend count moreResults moreChanges moreFailures) (results ++ moreResults)
      (changes ++ moreChanges) (failures ++ moreFailures) where
  results := lists.results.append_right moreResults
  changes := lists.changes.append_right moreChanges
  failures := lists.failures.append_right moreFailures

/-- Every step lists what it reports. -/
theorem apply
    (lists : Lists summary results changes failures)
    (step : SummaryStep) :
    Lists (step.apply summary) (results ++ step.results) (changes ++ step.changes)
      (failures ++ step.failures) := by
  cases step with
  | register names =>
      simp only [SummaryStep.results, SummaryStep.changes, SummaryStep.failures, List.append_nil]
      exact ⟨lists.results, lists.changes, lists.failures⟩
  | merge result change =>
      rw [SummaryStep.apply, merge_eq_extend]
      exact lists.extend 1 [result] change.toList []
  | fail path fault =>
      rw [SummaryStep.apply, fail_eq_extend]
      exact lists.extend 1 [] [] [⟨path, fault⟩]
  | sort =>
      simp only [SummaryStep.results, SummaryStep.changes, SummaryStep.failures, List.append_nil]
      exact ⟨(sortByPath_perm _ _).trans lists.results,
        (sortByPath_perm _ _).trans lists.changes,
        (sortByPath_perm _ _).trans lists.failures⟩

theorem foldl_apply
    (lists : Lists summary results changes failures)
    (steps : List SummaryStep) :
    Lists (steps.foldl SummaryStep.apply summary) (results ++ steps.flatMap SummaryStep.results)
      (changes ++ steps.flatMap SummaryStep.changes)
      (failures ++ steps.flatMap SummaryStep.failures) := by
  induction steps generalizing summary results changes failures with
  | nil =>
      simpa using lists
  | cons step rest inductionHypothesis =>
      simpa [List.append_assoc] using inductionHypothesis (lists.apply step)

end Lists

/--
After any steps on a new summary every total is what the lists account for: the
files are the results and the failures, the modified ones the changes, and the
counts, fixes and issues those of the reports of the results.  The lists hold
just what was merged and what failed.
-/
theorem totals_account_for_what_was_reported
    (steps : List SummaryStep)
    (once : ∀ result ∈ steps.flatMap SummaryStep.results, result.CountsOnce) :
    let summary := after steps
    summary.scanned = summary.results.length + summary.failures.length ∧
      summary.modified = summary.changes.length ∧
      summary.cached = summary.results.countP (·.cached) ∧
      summary.unresolved = (summary.results.map (·.unresolved)).sum ∧
      summary.fixes = summary.ruleTotals.total ∧
      summary.fixes = (summary.results.map (·.fixes)).sum ∧
      (∀ name, summary.ruleTotals.count name = (summary.results.map (·.count name)).sum) ∧
      (∀ name, name ∈ summary.ruleTotals.names ↔
        name ∈ steps.flatMap SummaryStep.registered ∨
          ∃ result ∈ summary.results, name ∈ result.counters.map Prod.fst) ∧
      summary.Lists (steps.flatMap SummaryStep.results) (steps.flatMap SummaryStep.changes)
        (steps.flatMap SummaryStep.failures) := by
  intro summary
  have balanced : Balanced (steps.flatMap SummaryStep.registered) summary :=
    Balanced.empty.foldl_apply once
  have lists : summary.Lists _ _ _ :=
    Lists.empty.foldl_apply steps
  exact ⟨balanced.scanned, balanced.modified, balanced.cached, balanced.unresolved,
    balanced.counted, balanced.reported, balanced.totals, balanced.known, lists⟩

/-- Two files with counters, one that was known to be clean, and one that failed after a sort. -/
def mixedSteps : List SummaryStep :=
  let issue : Issue := { kind := .legacyMarker, line := 3, message := "left in place" }
  let first : Report := { counters := ⟨[("wrap", 2), ("emit", 1)]⟩, issues := [issue] }
  let second : Report := { counters := ⟨[("wrap", 1)]⟩ }
  [.register ["emit"],
    .merge { path := "b.gd", report := some first } (some { path := "b.gd", fixes := 3 }),
    .merge { path := "a.gd", cached := true } none,
    .sort,
    .fail "c.gd" (.onFile .read "c.gd" (.plain "gone")),
    .register ["await"],
    .merge { path := "d.gd", report := some second } none]

/-- The four files of the steps have four fixes, three of them under one name. -/
theorem totals_of_mixed_steps :
    (∀ result ∈ mixedSteps.flatMap SummaryStep.results, result.CountsOnce) ∧
      let summary := after mixedSteps
      summary.results.length + summary.failures.length = 4 ∧
        summary.changes.length = 1 ∧
        summary.results.countP (·.cached) = 1 ∧
        (summary.results.map (·.unresolved)).sum = 1 ∧
        summary.ruleTotals.total = 4 ∧
        (summary.results.map (·.fixes)).sum = 4 ∧
        (summary.results.map (·.count "wrap")).sum = 3 ∧
        "await" ∈ summary.ruleTotals.names := by
  have once : ∀ result ∈ mixedSteps.flatMap SummaryStep.results, result.CountsOnce := by
    decide
  obtain ⟨scanned, modified, cached, unresolved, counted, reported, totals, known, _⟩ :=
    totals_account_for_what_was_reported mixedSteps once
  refine ⟨once, scanned.symm, modified.symm, cached.symm, unresolved.symm, counted.symm,
    reported.symm, (totals "wrap").symm, (known "await").mpr (.inl ?_)⟩
  decide

end Summary

end ScriptUplift
