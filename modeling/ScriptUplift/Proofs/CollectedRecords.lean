import Mathlib.Data.List.Destutter
import Mathlib.Data.List.Nodup
import Mathlib.Tactic.Common
import ScriptUplift.Proofs.FileOrder

namespace ScriptUplift

/-!
# The records a collector shows

A collector shows what was severe enough in order of file, line, falling
severity and code.  Records that are alike in these four keep the order in which
they arrived, and of neighbours that are equal one is shown.  So a record shows
once unless a different one of its place in the order arrived between two
copies of it.
-/

namespace Record

/-- Dropping repeats leaves no equal neighbours, and is the library's way to do so. -/
theorem dropRepeats_eq_destutter
    (records : List Record) :
    dropRepeats records = records.destutter (· ≠ ·) := by
  fun_induction dropRepeats records with
  | case1 first rest inductionHypothesis =>
      rw [inductionHypothesis, List.destutter_cons', List.destutter_cons_cons, if_neg (by simp)]
  | case2 first second rest different inductionHypothesis =>
      rw [inductionHypothesis, List.destutter_cons', List.destutter_cons_cons, if_pos different]
  | case3 records noPair =>
      match records, noPair with
      | [], _ => rfl
      | [_], _ => rfl
      | first :: second :: rest, noPair => exact absurd rfl (noPair first second rest)

theorem dropRepeats_sublist
    (records : List Record) :
    (dropRepeats records).Sublist records := by
  rw [dropRepeats_eq_destutter]
  exact List.destutter_sublist _ _

theorem isChain_dropRepeats
    (records : List Record) :
    (dropRepeats records).IsChain (· ≠ ·) := by
  rw [dropRepeats_eq_destutter]
  exact List.isChain_destutter _ _

theorem dropRepeats_cons_cons
    (first second : Record)
    (rest : List Record) :
    dropRepeats (first :: second :: rest) =
      if first = second then dropRepeats (second :: rest)
      else first :: dropRepeats (second :: rest) := by
  rw [dropRepeats]

/-- What has no equal neighbours is not thinned out by dropping repeats around it. -/
theorem sublist_dropRepeats
    {records chosen : List Record}
    (within : chosen.Sublist records)
    (changing : chosen.IsChain (· ≠ ·)) :
    chosen.Sublist (dropRepeats records) := by
  fun_induction dropRepeats records generalizing chosen with
  | case1 first rest inductionHypothesis =>
      cases within with
      | cons _ below =>
          exact inductionHypothesis below changing
      | @cons_cons others _ _ below =>
          -- What is taken at the first of two equal records can be taken at the second.
          refine inductionHypothesis ?_ changing
          cases below with
          | cons _ further =>
              exact further.cons_cons first
          | cons_cons _ _ =>
              exact absurd rfl (List.isChain_cons_cons.mp changing).1
  | case2 first second rest different inductionHypothesis =>
      cases within with
      | cons _ below =>
          exact (inductionHypothesis below changing).cons first
      | cons_cons _ below =>
          exact (inductionHypothesis below changing.tail).cons_cons first
  | case3 records noPair =>
      exact within

theorem mem_dropRepeats
    {record : Record}
    {records : List Record} :
    record ∈ dropRepeats records ↔ record ∈ records := by
  constructor
  · exact fun member => (dropRepeats_sublist records).subset member
  · intro member
    rw [← List.singleton_sublist] at member ⊢
    exact sublist_dropRepeats member (List.isChain_singleton record)

/-- Between two copies of a record that are not neighbours stands another record. -/
theorem exists_between
    {records : List Record}
    (changing : records.IsChain (· ≠ ·))
    {record : Record}
    (twice : [record, record].Sublist records) :
    ∃ other, other ≠ record ∧ [record, other, record].Sublist records := by
  induction records with
  | nil =>
      cases twice
  | cons first rest inductionHypothesis =>
      cases twice with
      | cons _ below =>
          obtain ⟨other, different, between⟩ := inductionHypothesis changing.tail below
          exact ⟨other, different, between.cons first⟩
      | cons_cons _ below =>
          cases rest with
          | nil =>
              cases below
          | cons second others =>
              have different : record ≠ second := (List.isChain_cons_cons.mp changing).1
              have again : record ∈ others :=
                (List.mem_cons.mp (List.singleton_sublist.mp below)).resolve_left different
              exact ⟨second, different.symm,
                .cons_cons record (.cons_cons second (List.singleton_sublist.mpr again))⟩

/-- A record is left once if no other one stands between two copies of it. -/
theorem nodup_dropRepeats_iff
    {records : List Record} :
    (dropRepeats records).Nodup ↔
      ∀ record other, [record, other, record].Sublist records → other = record := by
  rw [List.nodup_iff_sublist]
  constructor
  · intro once record other between
    by_contra different
    have changing : [record, other, record].IsChain (· ≠ ·) := by
      simp [different, Ne.symm different]
    have shown := sublist_dropRepeats between changing
    exact once record (List.Sublist.trans (.cons_cons record (.cons other (.refl _))) shown)
  · intro together record twice
    obtain ⟨other, different, between⟩ :=
      exists_between (isChain_dropRepeats records) twice
    exact different (together record other (between.trans (dropRepeats_sublist records)))

/-- Records in order are thinned out for each place in the order by itself. -/
theorem filter_dropRepeats
    {records : List Record}
    (ordered : records.Pairwise (·.sortKey ≤ ·.sortKey))
    (key : String ×ₗ Nat ×ₗ Nat ×ₗ String) :
    (dropRepeats records).filter (·.sortKey = key) =
      dropRepeats (records.filter (·.sortKey = key)) := by
  have taken {record : Record} (here : record.sortKey = key) (rest : List Record) :
      (record :: rest).filter (·.sortKey = key) = record :: rest.filter (·.sortKey = key) :=
    List.filter_cons_of_pos (by simpa using here)
  have passed {record : Record} (elsewhere : record.sortKey ≠ key) (rest : List Record) :
      (record :: rest).filter (·.sortKey = key) = rest.filter (·.sortKey = key) :=
    List.filter_cons_of_neg (by simpa using elsewhere)
  fun_induction dropRepeats records with
  | case1 record rest inductionHypothesis =>
      rw [inductionHypothesis ordered.of_cons]
      by_cases here : record.sortKey = key
      · rw [taken here (record :: rest), taken here, dropRepeats_cons_cons, if_pos rfl]
      · rw [passed here (record :: rest)]
  | case2 first second rest different inductionHypothesis =>
      have below := inductionHypothesis ordered.of_cons
      by_cases here : first.sortKey = key
      · rw [taken here, below, taken here]
        by_cases next : second.sortKey = key
        · rw [taken next, dropRepeats_cons_cons, if_neg different]
        · -- Nothing of this place comes once a record of a later place has come.
          have nothing : (second :: rest).filter (·.sortKey = key) = [] := by
            obtain ⟨firstLeast, restOrdered⟩ := List.pairwise_cons.mp ordered
            obtain ⟨secondLeast, _⟩ := List.pairwise_cons.mp restOrdered
            have later : key < second.sortKey :=
              lt_of_le_of_ne (here ▸ firstLeast second List.mem_cons_self) (Ne.symm next)
            rw [List.filter_eq_nil_iff]
            intro other member
            have atLeast : second.sortKey ≤ other.sortKey := by
              rcases List.mem_cons.mp member with rfl | inRest
              · exact le_rfl
              · exact secondLeast other inRest
            simpa using (lt_of_lt_of_le later atLeast).ne'
          rw [nothing]
          rfl
      · rw [passed here, below, passed here]
  | case3 records noPair =>
      match records, noPair with
      | [], _ => rfl
      | [only], _ =>
          by_cases here : only.sortKey = key
          · rw [taken here]
            rfl
          · rw [passed here]
            rfl
      | first :: second :: rest, noPair => exact absurd rfl (noPair first second rest)

/-- Two records tie in the order if they are alike in all that it goes by. -/
theorem ties_iff
    (first second : Record) :
    StableSort.ties (fun one other : Record => !other.before one) first second = true ↔
      second.sortKey = first.sortKey := by
  simp only [StableSort.ties, Bool.and_eq_true, not_before_iff]
  exact ⟨fun tied => le_antisymm tied.2 tied.1, fun same => ⟨same.ge, same.le⟩⟩

theorem precedes_trans
    (first second third : Record)
    (earlier : (!second.before first) = true)
    (later : (!third.before second) = true) :
    (!third.before first) = true := by
  rw [not_before_iff] at earlier later ⊢
  exact earlier.trans later

theorem precedes_total
    (first second : Record) :
    ((!second.before first) || (!first.before second)) = true := by
  rw [Bool.or_eq_true, not_before_iff, not_before_iff]
  exact le_total _ _

end Record

/-- What can be given to a collector. -/
inductive CollectorStep
  | consume (result : FileResult)
  | add (record : Record)
  deriving Repr, DecidableEq

namespace CollectorStep

/-- A collector after one more step. -/
def apply
    (collector : Collector) :
    CollectorStep → Collector
  | .consume result => collector.consume result
  | .add record => collector.add record

/-- The records that arrive with a step. -/
def records : CollectorStep → List Record
  | .consume result => result.records
  | .add record => [record]

end CollectorStep

namespace Collector

/-- A new collector after some steps. -/
def after
    (minSeverity : Severity)
    (steps : List CollectorStep) :
    Collector :=
  steps.foldl CollectorStep.apply { minSeverity }

theorem apply_eq_addAll
    (collector : Collector)
    (step : CollectorStep) :
    step.apply collector = collector.addAll step.records := by
  cases step <;> rfl

/-- Records that arrive one step after the other arrive in one. -/
theorem foldl_apply
    (collector : Collector)
    (steps : List CollectorStep) :
    steps.foldl CollectorStep.apply collector =
      collector.addAll (steps.flatMap CollectorStep.records) := by
  induction steps generalizing collector with
  | nil =>
      rfl
  | cons step rest inductionHypothesis =>
      rw [List.foldl_cons, inductionHypothesis, apply_eq_addAll, List.flatMap_cons, addAll_append]

/-- What arrives and is severe enough is gathered. -/
theorem gathered_after
    (minSeverity : Severity)
    (steps : List CollectorStep) :
    (after minSeverity steps).gathered =
      (steps.flatMap CollectorStep.records).filter (minSeverity.rank ≤ ·.severity.rank) := by
  rw [after, foldl_apply, addAll_eq, List.nil_append]

/-- The records a collector gathered, in order. -/
def sorted
    (collector : Collector) :
    List Record :=
  collector.gathered.mergeSort fun first second => !second.before first

variable (collector : Collector)

theorem pairwise_sorted :
    collector.sorted.Pairwise (·.sortKey ≤ ·.sortKey) := by
  refine (List.pairwise_mergeSort Record.precedes_trans Record.precedes_total _).imp ?_
  intro first second earlier
  exact (Record.not_before_iff first second).mp earlier

/-- The order keeps the records of each place in the order in which they arrived. -/
theorem filter_sorted
    (record : Record) :
    collector.sorted.filter (·.sortKey = record.sortKey) =
      collector.gathered.filter (·.sortKey = record.sortKey) := by
  have stable := StableSort.filter_mergeSort Record.precedes_trans Record.precedes_total
    collector.gathered record
  have tied : StableSort.ties (fun one other : Record => !other.before one) record =
      fun other => decide (other.sortKey = record.sortKey) := by
    funext other
    rw [Bool.eq_iff_iff, Record.ties_iff, decide_eq_true_eq]
  rwa [tied] at stable

theorem mem_records
    (record : Record) :
    record ∈ collector.records ↔ record ∈ collector.gathered := by
  unfold records
  rw [Record.mem_dropRepeats, (List.mergeSort_perm _ _).mem_iff]

theorem filter_records
    (record : Record) :
    collector.records.filter (·.sortKey = record.sortKey) =
      Record.dropRepeats (collector.gathered.filter (·.sortKey = record.sortKey)) := by
  rw [← filter_sorted]
  exact Record.filter_dropRepeats collector.pairwise_sorted _

/--
A collector shows each record once if no other record of its place in the order
arrived between two copies of it.
-/
theorem nodup_records_iff :
    collector.records.Nodup ↔
      ∀ record other, [record, other, record].Sublist collector.gathered →
        other.sortKey = record.sortKey → other = record := by
  constructor
  · intro once record other between samePlace
    have place : ∀ member ∈ [record, other, record],
        decide (member.sortKey = record.sortKey) = true := by
      simp [samePlace]
    have within := between.filter (·.sortKey = record.sortKey)
    rw [List.filter_eq_self.mpr place] at within
    have onceHere := once.filter (·.sortKey = record.sortKey)
    rw [filter_records] at onceHere
    exact Record.nodup_dropRepeats_iff.mp onceHere record other within
  · intro together
    rw [List.nodup_iff_sublist]
    intro record twice
    have onceHere : (collector.records.filter (·.sortKey = record.sortKey)).Nodup := by
      rw [filter_records, Record.nodup_dropRepeats_iff]
      intro first other within
      have place (member : Record) (among : member ∈ [first, other, first]) :
          member.sortKey = record.sortKey :=
        of_decide_eq_true (List.mem_filter.mp (within.subset among)).2
      refine together first other (within.trans List.filter_sublist) ?_
      rw [place other (by simp), place first (by simp)]
    have twiceHere := twice.filter (·.sortKey = record.sortKey)
    rw [List.filter_eq_self.mpr (by simp)] at twiceHere
    exact List.nodup_iff_sublist.mp onceHere record twiceHere

/--
Whatever arrives, a collector shows in order of file, line, falling severity and
code exactly the records that are severe enough; those of one place in the order
as they arrived, without neighbours that are equal.  It shows each record once
exactly if no other one of its place arrived between two copies of it.
-/
theorem records_are_those_kept
    (minSeverity : Severity)
    (steps : List CollectorStep) :
    let arrived := steps.flatMap CollectorStep.records
    let kept := arrived.filter (minSeverity.rank ≤ ·.severity.rank)
    let shown := (after minSeverity steps).records
    shown.Pairwise (·.sortKey ≤ ·.sortKey) ∧
      (∀ record : Record,
        record ∈ shown ↔ record ∈ arrived ∧ minSeverity.rank ≤ record.severity.rank) ∧
      (∀ record : Record, shown.filter (·.sortKey = record.sortKey) =
        Record.dropRepeats (kept.filter (·.sortKey = record.sortKey))) ∧
      (shown.Nodup ↔
        ∀ record other : Record, [record, other, record].Sublist kept →
          other.sortKey = record.sortKey → other = record) := by
  intro arrived kept shown
  have gathered : (after minSeverity steps).gathered = kept :=
    gathered_after minSeverity steps
  refine ⟨?_, ?_, ?_, ?_⟩
  · exact (pairwise_sorted _).sublist (Record.dropRepeats_sublist _)
  · intro record
    rw [mem_records, gathered, List.mem_filter, decide_eq_true_eq]
  · intro record
    rw [filter_records, gathered]
  · rw [nodup_records_iff, gathered]

/-- A file of one line, which connects a signal, disconnects another and connects a third. -/
def connectingFile : FileResult where
  path := "a.gd"
  lines := ["connect(\"a\") + disconnect(\"b\") + connect(\"c\")".toList]
  categories := [.other]

/--
The findings about the two calls that connect are equal, and the one about the
call that disconnects is of the same place: all three are shown.
-/
theorem equal_findings_are_shown_twice :
    let found (callee : String) : Record :=
      Legacy.record "a.gd" 1
        ("legacy_connect", callee ++ " with a signal name string was left in place")
    let shown := (after .info [.consume connectingFile]).records
    shown = [found "connect", found "disconnect", found "connect"] ∧ ¬ shown.Nodup := by
  intro found shown
  have gathered : (after .info [.consume connectingFile]).gathered =
      [found "connect", found "disconnect", found "connect"] := by
    decide +kernel
  have listed : shown = [found "connect", found "disconnect", found "connect"] := by
    have inOrder : (after .info [.consume connectingFile]).gathered.Pairwise
        fun first second => (!second.before first) = true := by
      rw [gathered]
      decide +kernel
    unfold shown records
    rw [List.mergeSort_of_pairwise inOrder, gathered]
    decide +kernel
  rw [listed]
  exact ⟨rfl, by simp⟩

end Collector

end ScriptUplift
