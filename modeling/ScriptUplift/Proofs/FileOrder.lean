import Mathlib.Data.Prod.Lex
import Mathlib.Data.String.Basic
import Mathlib.Tactic.Common
import ScriptUplift.Proofs.Shares
import ScriptUplift.Proofs.SortedEntries

namespace ScriptUplift

/-!
# The order of files

Files can be remembered, counted and gathered in any order.  Under different keys the
store comes out the same, up to the times in its records.  What a summary and a
collector list comes out in another order, which a stable sort by something that no
two files share removes.
-/

namespace StableSort

variable {α β : Type} {precedes : β → β → Bool}

/-- Whether an order tells two items apart. -/
def ties
    (precedes : β → β → Bool)
    (first second : β) :
    Bool :=
  precedes first second && precedes second first

theorem ties_self
    (total : ∀ first second, (precedes first second || precedes second first) = true)
    (item : β) :
    ties precedes item item = true := by
  simpa [ties] using total item item

/-- Sorted lists are the same if the items that tie with any one item are. -/
theorem eq_of_pairwise
    (total : ∀ first second, (precedes first second || precedes second first) = true)
    {first second : List β}
    (firstSorted : first.Pairwise (precedes · ·))
    (secondSorted : second.Pairwise (precedes · ·))
    (alike : ∀ item, first.filter (ties precedes item) = second.filter (ties precedes item)) :
    first = second := by
  induction first generalizing second with
  | nil =>
      symm
      refine List.eq_nil_iff_forall_not_mem.mpr fun item member => ?_
      have tied : item ∈ second.filter (ties precedes item) :=
        List.mem_filter.mpr ⟨member, ties_self total item⟩
      rw [← alike] at tied
      cases tied
  | cons head rest inductionHypothesis =>
      cases second with
      | nil =>
          have missing := alike head
          rw [List.filter_cons_of_pos (ties_self total head)] at missing
          cases missing
      | cons other others =>
          obtain ⟨headLeast, restSorted⟩ := List.pairwise_cons.mp firstSorted
          obtain ⟨otherLeast, othersSorted⟩ := List.pairwise_cons.mp secondSorted
          -- each head is in the other list, so neither precedes the other strictly
          have headFirst : precedes head other = true := by
            have member : other ∈ (head :: rest).filter (ties precedes other) := by
              rw [alike]
              simp [ties_self total]
            rcases List.mem_cons.mp (List.mem_filter.mp member).1 with rfl | inRest
            · exact (Bool.and_eq_true_iff.mp (ties_self total other)).1
            · exact headLeast other inRest
          have otherFirst : precedes other head = true := by
            have member : head ∈ (other :: others).filter (ties precedes head) := by
              rw [← alike]
              simp [ties_self total]
            rcases List.mem_cons.mp (List.mem_filter.mp member).1 with rfl | inRest
            · exact (Bool.and_eq_true_iff.mp (ties_self total head)).1
            · exact otherLeast head inRest
          have tied : ties precedes head other = true := by
            simp [ties, headFirst, otherFirst]
          have heads := alike head
          rw [List.filter_cons_of_pos (ties_self total head), List.filter_cons_of_pos tied] at heads
          obtain ⟨rfl, _⟩ := List.cons.inj heads
          rw [inductionHypothesis restSorted othersSorted]
          intro item
          have same := alike item
          rw [List.filter_cons, List.filter_cons] at same
          split at same
          · exact (List.cons.inj same).2
          · exact same

/-- A stable sort keeps the items that tie with an item in order. -/
theorem filter_mergeSort
    (transitive : ∀ first second third,
      precedes first second = true → precedes second third = true → precedes first third = true)
    (total : ∀ first second, (precedes first second || precedes second first) = true)
    (items : List β)
    (item : β) :
    (items.mergeSort precedes).filter (ties precedes item) =
      items.filter (ties precedes item) := by
  have ordered : (items.filter (ties precedes item)).Pairwise (precedes · ·) := by
    refine List.pairwise_of_forall_mem_list fun first isFirst second isSecond => ?_
    have firstTied := Bool.and_eq_true_iff.mp (List.mem_filter.mp isFirst).2
    have secondTied := Bool.and_eq_true_iff.mp (List.mem_filter.mp isSecond).2
    exact transitive first item second firstTied.2 secondTied.1
  have kept := (List.sublist_mergeSort transitive total ordered List.filter_sublist).filter
    (ties precedes item)
  simp only [List.filter_filter, Bool.and_self] at kept
  exact (kept.eq_of_length ((List.mergeSort_perm items precedes).filter _).length_eq.symm).symm

/-- What files add to a list comes in any order, except for what only one of them adds. -/
theorem filter_flatMap_perm
    {name : α → String}
    {key : β → String}
    {share : α → List β}
    {files others : List α}
    (perm : others.Perm files)
    (distinct : (files.map name).Nodup)
    (own : ∀ file ∈ files, ∀ item ∈ share file, key item = name file)
    {accepts : β → Bool}
    {wanted : String}
    (single : ∀ item, accepts item = true → key item = wanted) :
    (others.flatMap share).filter accepts = (files.flatMap share).filter accepts := by
  -- only a file of the wanted name adds something that is accepted
  have onlyWanted {some : List α} (within : ∀ file ∈ some, file ∈ files) :
      (some.flatMap share).filter accepts =
        ((some.filter (name · = wanted)).flatMap share).filter accepts := by
    induction some with
    | nil =>
        rfl
    | cons file rest inductionHypothesis =>
        obtain ⟨isFile, restWithin⟩ := List.forall_mem_cons.mp within
        rw [List.flatMap_cons, List.filter_append, inductionHypothesis restWithin]
        by_cases isWanted : name file = wanted
        · rw [List.filter_cons_of_pos (by simpa using isWanted), List.flatMap_cons,
            List.filter_append]
        · have nothing : (share file).filter accepts = [] := by
            rw [List.filter_eq_nil_iff]
            intro item member accepted
            exact isWanted ((own file isFile item member).symm.trans (single item accepted))
          rw [List.filter_cons_of_neg (by simpa using isWanted), nothing, List.nil_append]
  have atMostOne {some : List α} (someDistinct : (some.map name).Nodup) :
      (some.filter (name · = wanted)).Pairwise fun _ _ => False := by
    refine ((List.pairwise_map.mp someDistinct).sublist List.filter_sublist).imp_of_mem ?_
    intro file other isFile isOther different
    have fileWanted : name file = wanted := by
      simpa using (List.mem_filter.mp isFile).2
    have otherWanted : name other = wanted := by
      simpa using (List.mem_filter.mp isOther).2
    exact different (fileWanted.trans otherWanted.symm)
  rw [onlyWanted fun file member => perm.mem_iff.mp member, onlyWanted fun _ member => member]
  congr 2
  exact List.Perm.eq_of_pairwise (fun _ _ _ _ never => never.elim)
    (atMostOne ((perm.map name).nodup_iff.mpr distinct)) (atMostOne distinct) (perm.filter _)

/-- A stable sort by what no two files share does not show the order of the files. -/
theorem mergeSort_flatMap_perm
    (transitive : ∀ first second third,
      precedes first second = true → precedes second third = true → precedes first third = true)
    (total : ∀ first second, (precedes first second || precedes second first) = true)
    {name : α → String}
    {key : β → String}
    (decides : ∀ first second, ties precedes first second = true → key second = key first)
    {share : α → List β}
    {files others : List α}
    (perm : others.Perm files)
    (distinct : (files.map name).Nodup)
    (own : ∀ file ∈ files, ∀ item ∈ share file, key item = name file)
    (before : List β) :
    (before ++ others.flatMap share).mergeSort precedes =
      (before ++ files.flatMap share).mergeSort precedes := by
  apply eq_of_pairwise total (List.pairwise_mergeSort transitive total _)
    (List.pairwise_mergeSort transitive total _)
  intro item
  rw [filter_mergeSort transitive total, filter_mergeSort transitive total, List.filter_append,
    List.filter_append, filter_flatMap_perm perm distinct own (decides item)]

end StableSort

/-! ## Sorting by path -/

section

variable {α β : Type} {path : β → String} {items others : List β}

/-- Items with different paths have one order by path. -/
theorem sortByPath_eq_of_perm
    (perm : items.Perm others)
    (distinct : (items.map path).Nodup) :
    sortByPath path items = sortByPath path others := by
  refine List.Perm.eq_of_pairwise ?_ (pairwise_sortByPath path items)
    (pairwise_sortByPath path others)
    (((sortByPath_perm path items).trans perm).trans (sortByPath_perm path others).symm)
  intro item other isItem isOther before after
  rw [mem_sortByPath] at isItem isOther
  exact List.inj_on_of_nodup_map distinct isItem (perm.mem_iff.mpr isOther)
    (String.le_antisymm before after)

/-- The paths of sorted items have one order, whichever items share a path. -/
theorem map_sortByPath_eq_of_perm
    (perm : items.Perm others) :
    (sortByPath path items).map path = (sortByPath path others).map path := by
  have sorted (items : List β) : ((sortByPath path items).map path).Pairwise (· ≤ ·) :=
    List.pairwise_map.mpr (pairwise_sortByPath path items)
  refine List.Perm.eq_of_pairwise (fun _ _ _ _ => String.le_antisymm) (sorted items)
    (sorted others) (List.Perm.map path ?_)
  exact ((sortByPath_perm path items).trans perm).trans (sortByPath_perm path others).symm

/-- What files add under their own names has different paths when no file adds more than one item. -/
theorem nodup_map_flatMap
    {name : α → String}
    {share : α → List β}
    {files : List α}
    (distinct : (files.map name).Nodup)
    (own : ∀ file ∈ files, ∀ item ∈ share file, path item = name file)
    (single : ∀ file ∈ files, (share file).length ≤ 1) :
    ((files.flatMap share).map path).Nodup := by
  induction files with
  | nil =>
      exact List.nodup_nil
  | cons file rest inductionHypothesis =>
      obtain ⟨fresh, restDistinct⟩ := List.nodup_cons.mp distinct
      obtain ⟨ownFirst, ownRest⟩ := List.forall_mem_cons.mp own
      obtain ⟨singleFirst, singleRest⟩ := List.forall_mem_cons.mp single
      rw [List.flatMap_cons, List.map_append, List.nodup_append]
      refine ⟨?_, inductionHypothesis restDistinct ownRest singleRest, ?_⟩
      · match share file, singleFirst with
        | [], _ => exact List.nodup_nil
        | [item], _ => exact List.nodup_singleton _
      · intro first isFirst second isSecond same
        obtain ⟨item, isItem, rfl⟩ := List.mem_map.mp isFirst
        obtain ⟨other, isOther, rfl⟩ := List.mem_map.mp isSecond
        obtain ⟨owner, isOwner, isShare⟩ := List.mem_flatMap.mp isOther
        rw [ownFirst item isItem, ownRest owner isOwner other isShare] at same
        exact fresh (same ▸ List.mem_map_of_mem isOwner)

end

namespace FileRecord

/-- A record without its time. -/
def timeless
    (record : FileRecord) :
    FileRecord :=
  { record with checkedAt := 0 }

end FileRecord

/-- A stored record without its time. -/
def Stored.timeless : Stored FileRecord → Stored FileRecord
  | .sound record => .sound record.timeless
  | .garbled => .garbled

@[simp] theorem Stored.timeless_sound
    (record : FileRecord) :
    Stored.timeless (.sound record) = .sound record.timeless :=
  rfl

namespace StateStore

/-- A store without the times of its records. -/
def timeless : StateStore → StateStore
  | .memory held =>
      .memory { held with files := held.files.map fun entry => (entry.1, entry.2.timeless) }
  | .database held =>
      .database { held with files := held.files.map fun entry => (entry.1, entry.2.timeless) }
  | .broken =>
      .broken

theorem timeless_put
    (store : StateStore)
    (key : String)
    (record : FileRecord) :
    store.timeless.put key record.timeless = (store.put key record).map timeless := by
  cases store with
  | memory held =>
      simp only [timeless, put, Except.map, MemoryStore.put, Entries.map_insert]
  | database held =>
      have sameTime : record.timeless.stored = record.stored.timeless := by
        simp [FileRecord.timeless, FileRecord.stored, Clock.toWholeSeconds]
      unfold timeless put Database.put Database.store
      dsimp only
      split
      · rfl
      · simp only [Except.map, Entries.map_insert, Stored.timeless_sound, sameTime]
  | broken =>
      rfl

theorem timeless_addRun
    (store : StateStore)
    (run : RunRecord) :
    store.timeless.addRun run = (store.addRun run).map fun added => (added.1, added.2.timeless) := by
  cases store <;> rfl

theorem timeless_get?
    (store : StateStore)
    (key : String) :
    store.timeless.get? key = (store.get? key).map (Option.map FileRecord.timeless) := by
  cases store with
  | memory held =>
      simp only [timeless, get?, MemoryStore.get?, Entries.lookup_map, Except.map]
  | database held =>
      unfold timeless get? Database.get?
      dsimp only
      rw [Entries.lookup_map]
      cases held.files.lookup key with
      | none =>
          rfl
      | some stored =>
          cases stored <;> rfl
  | broken =>
      rfl

end StateStore

namespace Tally

/-- Counters add up whatever their order. -/
theorem get?_addAll
    (tally : Tally)
    (entries : List (String × Int))
    (name : String) :
    (tally.addAll entries).get? name =
      if name ∈ entries.map (·.1) then
        some (tally.count name + ((entries.filter (·.1 = name)).map (·.2)).sum)
      else
        tally.get? name := by
  unfold addAll
  induction entries generalizing tally with
  | nil =>
      rfl
  | cons entry rest inductionHypothesis =>
      rw [List.foldl_cons, inductionHypothesis, count_add, get?_add]
      by_cases own : name = entry.1
      · subst own
        by_cases again : entry.1 ∈ rest.map (·.1)
        · simp [again, add_assoc]
        · have nothing : rest.filter (·.1 = entry.1) = [] := by
            rw [List.filter_eq_nil_iff]
            intro other member same
            exact again (List.mem_map.mpr ⟨other, member, by simpa using same⟩)
          simp [again, nothing]
      · rw [List.map_cons, List.filter_cons_of_neg (by simpa using Ne.symm own)]
        simp only [List.mem_cons, own, false_or, if_false, add_zero]

theorem get?_addAll_perm
    (tally : Tally)
    {entries others : List (String × Int)}
    (perm : others.Perm entries)
    (name : String) :
    (tally.addAll others).get? name = (tally.addAll entries).get? name := by
  rw [get?_addAll, get?_addAll, ((perm.filter _).map _).sum_eq]
  simp only [(perm.map _).mem_iff]

end Tally

namespace Record

/-- What records are ordered by. -/
def sortKey
    (record : Record) :
    String ×ₗ Nat ×ₗ Nat ×ₗ String :=
  toLex (record.file, toLex (record.line.toNat, toLex (2 - record.severity.rank, record.code)))

theorem before_iff
    (first second : Record) :
    first.before second = true ↔ first.sortKey < second.sortKey := by
  have ranks : first.severity = second.severity ↔
      2 - first.severity.rank = 2 - second.severity.rank := by
    cases first.severity <;> cases second.severity <;> decide
  have falls : second.severity.rank < first.severity.rank ↔
      2 - first.severity.rank < 2 - second.severity.rank := by
    cases first.severity <;> cases second.severity <;> decide
  unfold before sortKey
  rw [Prod.Lex.toLex_lt_toLex, Prod.Lex.toLex_lt_toLex, Prod.Lex.toLex_lt_toLex, ← ranks, ← falls]
  by_cases sameFile : first.file = second.file
  · by_cases sameLine : first.line = second.line
    · by_cases sameRank : first.severity = second.severity
      · simp [sameFile, sameLine, sameRank]
      · simp [sameFile, sameLine, sameRank]
    · have lines : first.line.toNat ≠ second.line.toNat := by
        rwa [Ne, UInt32.toNat_inj]
      simp [sameFile, sameLine, lines, UInt32.lt_iff_toNat_lt]
  · simp [sameFile]

theorem not_before_iff
    (first second : Record) :
    (!second.before first) = true ↔ first.sortKey ≤ second.sortKey := by
  rw [Bool.not_eq_true', ← Bool.not_eq_true, before_iff, not_lt]

end Record

/-- Every record of a result is about the file it is shown under. -/
theorem FileResult.file_of_mem_records
    {result : FileResult}
    {record : Record}
    (member : record ∈ result.records) :
    record.file = result.displayPath := by
  have legacy (number : Nat) (openString : Option Delimiter) (lines : List Text)
      (categories : List Category)
      (found : record ∈ Legacy.checkFrom result.displayPath number openString lines categories) :
      record.file = result.displayPath := by
    induction lines generalizing number openString categories with
    | nil =>
        cases found
    | cons text rest inductionHypothesis =>
        rcases List.mem_append.mp found with own | inRest
        · split at own
          · cases own
          · obtain ⟨_, _, rfl⟩ := List.mem_map.mp own
            rfl
        · exact inductionHypothesis _ _ _ inRest
  rcases List.mem_append.mp member with issue | check
  · obtain ⟨_, _, rfl⟩ := List.mem_map.mp issue
    rfl
  · exact legacy _ _ _ _ check

theorem Collector.addAll_eq
    (collector : Collector)
    (records : List Record) :
    collector.addAll records =
      { collector with
        gathered := collector.gathered ++
          records.filter (collector.minSeverity.rank ≤ ·.severity.rank) } := by
  unfold addAll
  induction records generalizing collector with
  | nil =>
      simp
  | cons record rest inductionHypothesis =>
      rw [List.foldl_cons, inductionHypothesis]
      unfold add
      by_cases severe : collector.minSeverity.rank ≤ record.severity.rank
      · simp [severe]
      · simp [severe]

/--
Summaries that show the same; the totals of the rules have no order, and failures
with the same path may stand in either order.
-/
structure Summary.Same
    (first second : Summary) :
    Prop where
  totals : ∀ name, first.ruleTotals.get? name = second.ruleTotals.get? name
  failures : first.failures.Perm second.failures
  failedPaths : first.failures.map (·.path) = second.failures.map (·.path)
  rest :
    { first with ruleTotals := {}, failures := [] } =
      { second with ruleTotals := {}, failures := [] }

namespace Migration

/-- What the store answers does not depend on the times of its records. -/
theorem askCache_timeless
    (migrator : Migrator)
    (store : StateStore)
    (relative hash : String) :
    askCache migrator store.timeless relative hash = askCache migrator store relative hash := by
  unfold askCache
  rw [StateStore.timeless_get?]
  cases store.get? relative with
  | error fault =>
      rfl
  | ok found =>
      cases found <;> rfl

namespace Forecast

theorem timeless_remember
    (forecast : Forecast)
    (relative ruleHash : String)
    (now : Int)
    (store : StateStore) :
    (forecast.remember relative ruleHash now store).timeless =
      forecast.remember relative ruleHash 0 store.timeless := by
  unfold remember
  split
  · rfl
  · rename_i hash _
    have stored := store.timeless_put relative ⟨hash, ruleHash, now⟩
    unfold FileRecord.timeless at stored
    dsimp only at stored
    rw [stored]
    cases store.put relative ⟨hash, ruleHash, now⟩ <;> rfl

/-- Files with different names are remembered in any order. -/
theorem remember_comm
    {relative other : String}
    (different : relative ≠ other)
    (forecast another : Forecast)
    (ruleHash : String)
    (now : Int)
    (store : StateStore) :
    forecast.remember relative ruleHash now (another.remember other ruleHash now store) =
      another.remember other ruleHash now (forecast.remember relative ruleHash now store) := by
  unfold remember
  cases forecast.remembered? with
  | none =>
      rfl
  | some hash =>
      cases another.remembered? with
      | none =>
          rfl
      | some anotherHash =>
          cases store with
          | broken =>
              rfl
          | memory held =>
              simp [StateStore.put, MemoryStore.put, Except.toOption, Entries.insert_comm different]
          | database held =>
              cases refused : Database.keyFault? relative <;>
                cases otherRefused : Database.keyFault? other <;>
                  simp [StateStore.put, Database.put, Database.store, refused, otherRefused,
                    Except.map, Except.toOption, Entries.insert_comm different]

end Forecast

namespace Setup

variable {setup : Setup} {state : State} {files order : List FoundFile}

/-- Remember a file as forecast in a state, at no particular time. -/
def rememberTimeless
    (setup : Setup)
    (state : State)
    (store : StateStore)
    (file : FoundFile) :
    StateStore :=
  (setup.forecastAt state file).remember file.relative setup.migrator.ruleHash 0 store

theorem timeless_foldl_rememberIn
    (files : List FoundFile)
    (store : StateStore) :
    (files.foldl (setup.rememberIn state) store).timeless =
      files.foldl (setup.rememberTimeless state) store.timeless := by
  induction files generalizing store with
  | nil =>
      rfl
  | cons file rest inductionHypothesis =>
      rw [List.foldl_cons, List.foldl_cons, inductionHypothesis, rememberIn,
        Forecast.timeless_remember]
      rfl

/-- The store does not show the order of files with different names. -/
theorem foldl_rememberTimeless_perm
    (perm : order.Perm files)
    (names : (files.map (·.relative)).Nodup)
    (store : StateStore) :
    order.foldl (setup.rememberTimeless state) store =
      files.foldl (setup.rememberTimeless state) store := by
  refine perm.foldl_eq' ?_ store
  intro file member other otherMember held
  by_cases same : file.relative = other.relative
  · obtain rfl := List.inj_on_of_nodup_map names (perm.mem_iff.mp member)
      (perm.mem_iff.mp otherMember) same
    rfl
  · exact Forecast.remember_comm (Ne.symm same) _ _ _ _ _

/-- The summary does not show the order of files with different names. -/
theorem sort_foldl_countIn_perm
    (perm : order.Perm files)
    (paths : (files.map (·.place.path)).Nodup)
    (names : (files.map (·.relative)).Nodup)
    {summary : Summary}
    (noResult : summary.results = [])
    (noChange : summary.changes = []) :
    Summary.Same (order.foldl (setup.countIn state) summary).sort
      (files.foldl (setup.countIn state) summary).sort := by
  rw [foldl_countIn, foldl_countIn, List.filterMap_eq_flatMap_toList,
    List.filterMap_eq_flatMap_toList]
  have results := perm.flatMap_right fun file => (setup.forecastAt state file).results
  have changes := perm.flatMap_right fun file => (setup.forecastAt state file).changes
  have failures := (perm.flatMap_right fun file =>
    ((setup.forecastAt state file).failure? file.relative).toList).append_left summary.failures
  constructor
  · intro name
    exact Tally.get?_addAll_perm _ (results.flatMap_right _) name
  · exact ((sortByPath_perm _ _).trans failures).trans (sortByPath_perm _ _).symm
  · exact map_sortByPath_eq_of_perm failures
  · unfold Summary.extend Summary.sort
    simp only [Summary.mk.injEq, true_and, noResult, noChange, List.nil_append]
    refine ⟨?_, ?_, ?_, ?_, ?_, ?_, ?_⟩
    · rw [perm.length_eq]
    · rw [changes.length_eq]
    · rw [results.countP_eq]
    · rw [(results.map _).sum_eq]
    · rw [(results.map _).sum_eq]
    · refine (sortByPath_eq_of_perm changes.symm ?_).symm
      exact nodup_map_flatMap names (fun file _ change => path_of_mem_changes)
        fun file _ => Forecast.length_changes_le _
    · refine (sortByPath_eq_of_perm results.symm ?_).symm
      exact nodup_map_flatMap paths (fun file _ result member => (path_of_mem_results member).1)
        fun file _ => Forecast.length_results_le _

/-- The records do not show the order of files with different names. -/
theorem records_foldl_gatherIn_perm
    (perm : order.Perm files)
    (names : (files.map (·.relative)).Nodup)
    (shown : ∀ file ∈ files, file.relative ≠ "")
    (collector : Collector) :
    (order.foldl (setup.gatherIn state) collector).records =
      (files.foldl (setup.gatherIn state) collector).records := by
  have own {file : FoundFile} (member : file ∈ files) {record : Record}
      (isRecord : record ∈ (setup.forecastAt state file).records) :
      record.file = file.relative := by
    obtain ⟨result, isResult, isOwn⟩ := List.mem_flatMap.mp isRecord
    have sameName := (path_of_mem_results (List.mem_filter.mp isResult).1).2
    rw [FileResult.file_of_mem_records isOwn, FileResult.displayPath, sameName,
      if_neg (shown file member)]
  rw [foldl_gatherIn, foldl_gatherIn, Collector.addAll_eq, Collector.addAll_eq]
  unfold Collector.records
  dsimp only
  rw [List.filter_flatMap, List.filter_flatMap,
    StableSort.mergeSort_flatMap_perm ?_ ?_ ?_ perm names ?_ _]
  · intro first second third earlier later
    rw [Record.not_before_iff] at earlier later ⊢
    exact earlier.trans later
  · intro first second
    rw [Bool.or_eq_true, Record.not_before_iff, Record.not_before_iff]
    exact le_total _ _
  · exact fun record => record.file
  · intro first second tied
    rw [StableSort.ties, Bool.and_eq_true, Record.not_before_iff, Record.not_before_iff] at tied
    exact (congrArg (fun key => (ofLex key).1) (le_antisymm tied.1 tied.2)).symm
  · intro file member record isRecord
    exact own member (List.mem_filter.mp isRecord).1

end Setup

end Migration

end ScriptUplift
