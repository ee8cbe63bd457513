import Mathlib.Tactic.Common
import ScriptUplift.Proofs.Preparation
import ScriptUplift.Proofs.Shares

namespace ScriptUplift

/-!
# Files that fail

A file that cannot be read, does not pass the pipeline or cannot be written, at
whichever step, leaves the disk and the store as they were.  It shows as one failure
in the summary, and the other files come out as they would have without it.
-/

namespace Migration

/-- The files of a run that do not fail when their turn comes, and the failures of the others. -/
structure Parted where
  passing : List FoundFile
  failures : List FileFailure

/-- Part files by what becomes of them one after another. -/
def parted
    (migrator : Migrator)
    (options : MigrationOptions) :
    Disk → StateStore → List FoundFile → Parted
  | _, _, [] =>
      ⟨[], []⟩
  | disk, store, file :: rest =>
      let processed := process migrator options file disk store
      let others := parted migrator options processed.disk processed.store rest
      match processed.outcome with
      | .error fault => { others with failures := ⟨file.relative, fault⟩ :: others.failures }
      | .ok _ => { others with passing := file :: others.passing }

/-- A state differs from another one by further failures in its summary. -/
structure FurtherFailed
    (failures : List FileFailure)
    (whole rest : State) :
    Prop where
  disk : whole.disk = rest.disk
  store : whole.store = rest.store
  collector : whole.collector = rest.collector
  summary : whole.summary = rest.summary.extend failures.length [] [] failures

namespace Setup

variable {setup : Setup} {state : State} {file : FoundFile} {files : List FoundFile}

/-- A file that fails is not written, not remembered and adds a failure only. -/
theorem forecastAt_of_failure
    {fault : Fault}
    (ordered : state.disk.Ordered)
    (named : file.place.Named)
    (failed : (process setup.migrator setup.options file state.disk state.store).outcome =
      .error fault) :
    (setup.forecastAt state file).outcome = .error fault ∧
      (setup.forecastAt state file).written? = none ∧
      (setup.forecastAt state file).remembered? = none := by
  have isForecast : (setup.forecastAt state file).outcome = .error fault :=
    (setup.process_fulfils state.store ordered named).outcome.symm.trans failed
  rcases forecast_outcome_cases setup state file with
    ⟨_, _, unwritten, forgotten⟩ | ⟨_, _, passed, _⟩
  · exact ⟨isForecast, unwritten, forgotten⟩
  · rw [isForecast] at passed
    cases passed

/-- Processing a file that fails changes neither the disk nor the store. -/
theorem process_of_failure
    {fault : Fault}
    (ordered : state.disk.Ordered)
    (named : file.place.Named)
    (failed : (process setup.migrator setup.options file state.disk state.store).outcome =
      .error fault) :
    (process setup.migrator setup.options file state.disk state.store).disk = state.disk ∧
      (process setup.migrator setup.options file state.disk state.store).store = state.store := by
  obtain ⟨_, unwritten, forgotten⟩ := forecastAt_of_failure ordered named failed
  constructor
  · rcases setup.visit_writes ordered named 0 with same | ⟨_, _, _, _, written, _⟩
    · exact (setup.disk_visit ..).symm.trans same
    · rw [unwritten] at written
      cases written
  · rw [(setup.process_fulfils state.store ordered named).store, Forecast.remember]
    rw [forecastAt] at forgotten
    rw [forgotten]

/-- A file that fails adds a failure to the summary and no record. -/
theorem visit_of_failure
    {fault : Fault}
    (ordered : state.disk.Ordered)
    (named : file.place.Named)
    (failed : (process setup.migrator setup.options file state.disk state.store).outcome =
      .error fault)
    (total : Nat) :
    FurtherFailed [⟨file.relative, fault⟩] (setup.visit total state file) state where
  disk := (setup.disk_visit ..).trans (process_of_failure ordered named failed).1
  store := (setup.store_visit ..).trans (process_of_failure ordered named failed).2
  collector := by
    unfold visit State.absorb
    rw [failed]
    rfl
  summary := by
    unfold visit State.absorb
    rw [failed]
    exact Summary.fail_eq_extend ..

end Setup

namespace FurtherFailed

variable {setup : Setup} {whole middle rest : State} {file : FoundFile}
  {failures more : List FileFailure}

theorem refl
    (state : State) :
    FurtherFailed [] state state :=
  ⟨rfl, rfl, rfl, (Summary.extend_nil _).symm⟩

theorem trans
    (first : FurtherFailed more whole middle)
    (second : FurtherFailed failures middle rest) :
    FurtherFailed (failures ++ more) whole rest where
  disk := first.disk.trans second.disk
  store := first.store.trans second.store
  collector := first.collector.trans second.collector
  summary := by
    rw [first.summary, second.summary, Summary.extend_extend, List.length_append]
    rfl

/-- A file that does not fail adds the same to both states. -/
theorem visit
    (further : FurtherFailed failures whole rest)
    {result : FileResult}
    {change : Option FileChange}
    (passed : (process setup.migrator setup.options file whole.disk whole.store).outcome =
      .ok (result, change))
    (total partTotal : Nat) :
    FurtherFailed failures (setup.visit total whole file) (setup.visit partTotal rest file) := by
  unfold Setup.visit State.absorb
  rw [← further.disk, ← further.store, passed]
  refine ⟨rfl, rfl, ?_, ?_⟩
  · simp only [further.collector]
  · simp only [further.summary, Summary.merge_eq_extend, Summary.extend_extend, List.append_nil,
      List.nil_append, Nat.add_comm]

end FurtherFailed

namespace Setup

variable {setup : Setup}

/-- The files that fail take no part in what the others come to. -/
theorem processAll_parted
    {state rest : State}
    {files : List FoundFile}
    {failures : List FileFailure}
    (notCancelled : setup.options.cancelAfter = none)
    (ordered : state.disk.Ordered)
    (named : ∀ file ∈ files, file.place.Named)
    (further : FurtherFailed failures state rest)
    (total partTotal : Nat) :
    let parts := parted setup.migrator setup.options state.disk state.store files
    FurtherFailed (failures ++ parts.failures)
      (processAll setup.migrator setup.options total state files)
      (processAll setup.migrator setup.options partTotal rest parts.passing) := by
  induction files generalizing state rest failures with
  | nil =>
      simpa [parted, processAll] using further
  | cons file others inductionHypothesis =>
      obtain ⟨fileNamed, othersNamed⟩ := List.forall_mem_cons.mp named
      have nextOrdered := (setup.visit_touches ordered fileNamed total).ordered
      unfold parted
      rw [processAll_cons_of_not_cancelled notCancelled]
      dsimp only
      cases answered : (process setup.migrator setup.options file state.disk state.store).outcome with
      | error fault =>
          have goesOn := inductionHypothesis nextOrdered othersNamed
            ((visit_of_failure ordered fileNamed answered total).trans further)
          rw [setup.disk_visit, setup.store_visit] at goesOn
          dsimp only at goesOn ⊢
          rwa [List.append_assoc] at goesOn
      | ok pair =>
          obtain ⟨result, change⟩ := pair
          have goesOn := inductionHypothesis nextOrdered othersNamed
            (further.visit answered total partTotal)
          rw [setup.disk_visit, setup.store_visit] at goesOn
          dsimp only
          rw [processAll_cons_of_not_cancelled notCancelled]
          exact goesOn

theorem processAll_append
    (notCancelled : setup.options.cancelAfter = none)
    (total : Nat)
    (state : State)
    (earlier later : List FoundFile) :
    processAll setup.migrator setup.options total state (earlier ++ later) =
      processAll setup.migrator setup.options total
        (processAll setup.migrator setup.options total state earlier) later := by
  induction earlier generalizing state with
  | nil =>
      rfl
  | cons file rest inductionHypothesis =>
      rw [List.cons_append, processAll_cons_of_not_cancelled notCancelled, inductionHypothesis,
        processAll_cons_of_not_cancelled notCancelled]

/-- What a run lists and remembers bears the paths and the names of its files. -/
theorem processAll_bears
    {state : State}
    {files : List FoundFile}
    (ordered : state.disk.Ordered)
    (named : ∀ file ∈ files, file.place.Named)
    (total : Nat) :
    let after := processAll setup.migrator setup.options total state files
    (∀ result ∈ after.summary.results,
      result ∈ state.summary.results ∨ ∃ file ∈ files, result.path = file.place.path) ∧
      (∀ change ∈ after.summary.changes,
        change ∈ state.summary.changes ∨ ∃ file ∈ files, change.path = file.relative) ∧
      ∀ key, (∀ file ∈ files, key ≠ file.relative) →
        after.store.get? key = state.store.get? key := by
  induction files generalizing state with
  | nil =>
      exact ⟨fun _ => .inl, fun _ => .inl, fun _ _ => rfl⟩
  | cons file rest inductionHypothesis =>
      rw [processAll_cons]
      split
      · exact ⟨fun _ => .inl, fun _ => .inl, fun _ _ => rfl⟩
      · obtain ⟨fileNamed, restNamed⟩ := List.forall_mem_cons.mp named
        obtain ⟨stored, counted, _⟩ := setup.visit_leaves ordered fileNamed total
        rw [countIn, Forecast.count_eq_extend] at counted
        obtain ⟨results, changes, answers⟩ := inductionHypothesis
          (setup.visit_touches ordered fileNamed total).ordered restNamed
        refine ⟨fun result isResult => ?_, fun change isChange => ?_, fun key different => ?_⟩
        · rcases results result isResult with earlier | ⟨other, member, isPath⟩
          · rw [counted] at earlier
            rcases List.mem_append.mp earlier with before | own
            · exact .inl before
            · exact .inr ⟨file, List.mem_cons_self, (path_of_mem_results own).1⟩
          · exact .inr ⟨other, List.mem_cons_of_mem _ member, isPath⟩
        · rcases changes change isChange with earlier | ⟨other, member, isName⟩
          · rw [counted] at earlier
            rcases List.mem_append.mp earlier with before | own
            · exact .inl before
            · exact .inr ⟨file, List.mem_cons_self, path_of_mem_changes own⟩
          · exact .inr ⟨other, List.mem_cons_of_mem _ member, isName⟩
        · obtain ⟨own, others⟩ := List.forall_mem_cons.mp different
          rw [answers key others, stored, rememberIn]
          exact Forecast.get?_remember_of_ne own ..

/-- A file that fails keeps its entry, and what a run lists and remembers is of the others. -/
theorem processAll_of_failure
    {state : State}
    {file : FoundFile}
    {earlier later : List FoundFile}
    {total : Nat}
    {fault : Fault}
    (notCancelled : setup.options.cancelAfter = none)
    (ordered : state.disk.Ordered)
    (named : ∀ other ∈ earlier ++ file :: later, other.place.Named)
    (apart : ∀ other ∈ earlier ++ later,
      state.disk.placeOf other.place.path ≠ state.disk.placeOf file.place.path)
    (failed :
      let turn := processAll setup.migrator setup.options total state earlier
      (process setup.migrator setup.options file turn.disk turn.store).outcome = .error fault) :
    let turn := processAll setup.migrator setup.options total state earlier
    let processed := process setup.migrator setup.options file turn.disk turn.store
    let after := processAll setup.migrator setup.options total state (earlier ++ file :: later)
    (processed.disk = turn.disk ∧ processed.store = turn.store) ∧
      (∀ place, state.disk.placeOf file.place.path = .ok place →
        after.disk.kindAt? place = state.disk.kindAt? place) ∧
      (∀ result ∈ after.summary.results, result ∈ state.summary.results ∨
        ∃ other ∈ earlier ++ later, result.path = other.place.path) ∧
      (∀ change ∈ after.summary.changes, change ∈ state.summary.changes ∨
        ∃ other ∈ earlier ++ later, change.path = other.relative) ∧
      ∀ key, (∀ other ∈ earlier ++ later, key ≠ other.relative) →
        after.store.get? key = state.store.get? key := by
  intro turn processed after
  obtain ⟨earlierNamed, restNamed⟩ := List.forall_mem_append.mp named
  obtain ⟨fileNamed, laterNamed⟩ := List.forall_mem_cons.mp restNamed
  obtain ⟨earlierApart, laterApart⟩ := List.forall_mem_append.mp apart
  have before : TouchesOnly earlier state.disk turn.disk :=
    setup.processAll_touches total ordered earlierNamed
  let next := setup.visit total turn file
  have skipped : FurtherFailed _ next turn :=
    visit_of_failure before.ordered fileNamed failed total
  have isAfter : after = processAll setup.migrator setup.options total next later := by
    unfold after
    rw [processAll_append notCancelled, processAll_cons_of_not_cancelled notCancelled]
  have nextOrdered : next.disk.Ordered := by
    rw [skipped.disk]
    exact before.ordered
  have behind := setup.processAll_touches total nextOrdered laterNamed
  obtain ⟨turnResults, turnChanges, turnAnswers⟩ :=
    setup.processAll_bears ordered earlierNamed total
  obtain ⟨results, changes, answers⟩ := setup.processAll_bears nextOrdered laterNamed total
  rw [← isAfter] at behind results changes answers
  refine ⟨process_of_failure before.ordered fileNamed failed, fun place leads => ?_,
    fun result isResult => ?_, fun change isChange => ?_, fun key different => ?_⟩
  · rw [behind.elsewhere, skipped.disk, before.elsewhere]
    · intro other member otherLeads
      exact earlierApart other member (otherLeads.trans leads.symm)
    · intro other member otherLeads
      rw [skipped.disk] at otherLeads
      exact laterApart other member
        ((before.leads _ place (laterNamed other member) otherLeads).trans leads.symm)
  · rcases results result isResult with atTurn | ⟨other, member, isPath⟩
    · rw [skipped.summary] at atTurn
      rcases turnResults result (by simpa [Summary.extend] using atTurn) with
        before | ⟨other, member, isPath⟩
      · exact .inl before
      · exact .inr ⟨other, List.mem_append_left _ member, isPath⟩
    · exact .inr ⟨other, List.mem_append_right _ member, isPath⟩
  · rcases changes change isChange with atTurn | ⟨other, member, isName⟩
    · rw [skipped.summary] at atTurn
      rcases turnChanges change (by simpa [Summary.extend] using atTurn) with
        before | ⟨other, member, isName⟩
      · exact .inl before
      · exact .inr ⟨other, List.mem_append_left _ member, isName⟩
    · exact .inr ⟨other, List.mem_append_right _ member, isName⟩
  · obtain ⟨notEarlier, notLater⟩ := List.forall_mem_append.mp different
    rw [answers key notLater, skipped.store, turnAnswers key notEarlier]

/-- Where files keep out of each other's way, what becomes of one does not depend on the others. -/
theorem outcome_processAll
    {state : State}
    {file : FoundFile}
    {earlier later : List FoundFile}
    (notCancelled : setup.options.cancelAfter = none)
    (ordered : state.disk.Ordered)
    (apart : Apart state.disk (earlier ++ file :: later))
    (total : Nat) :
    let turn := processAll setup.migrator setup.options total state earlier
    (process setup.migrator setup.options file turn.disk turn.store).outcome =
      (process setup.migrator setup.options file state.disk state.store).outcome := by
  intro turn
  have settles : setup.Settles state earlier turn := processAll_settles notCancelled total ordered
    (apart.sublist (List.sublist_append_left earlier (file :: later)))
  have there := apart.there file (by simp)
  have otherPlace : ∀ other ∈ earlier, other.place ≠ file.place := by
    intro other member
    have places := apart.places
    rw [List.map_append, List.nodup_append] at places
    exact places.2.2 _ (List.mem_map_of_mem member) _ (by simp)
  have otherName : ∀ other ∈ earlier, file.relative ≠ other.relative := by
    intro other member
    have names := apart.names
    rw [List.map_append, List.nodup_append] at names
    exact (names.2.2 _ (List.mem_map_of_mem member) _ (by simp)).symm
  have aside : ∀ other ∈ earlier, ∀ passed ∈ state.disk.way file.place,
      passed ≠ state.disk.seat other.place :=
    fun other member => apart.aside (by simp) (List.mem_append_left _ member)
      (otherPlace other member)
  rw [(setup.process_fulfils turn.store settles.ordered there.named).outcome,
    (setup.process_fulfils state.store ordered there.named).outcome]
  exact congrArg Forecast.outcome (settles.forecastAt_eq ordered there aside otherName)

end Setup

namespace Request

/-- A file that fails among others with places of their own keeps its entry and its record. -/
theorem Ready.kept_of_failure
    {request : Request}
    {store : StateStore}
    {ready : State}
    {file : FoundFile}
    {files earlier later : List FoundFile}
    {fault : Fault}
    (isReady : request.Ready store ready files)
    (setup : Setup)
    (notCancelled : setup.options.cancelAfter = none)
    (ordered : request.disk.Ordered)
    (distinct : (files.map fun file => request.disk.placeOf file.place.path).Nodup)
    (isFiles : files = earlier ++ file :: later)
    (failed :
      let turn := processAll setup.migrator setup.options files.length ready earlier
      (process setup.migrator setup.options file turn.disk turn.store).outcome = .error fault) :
    let turn := processAll setup.migrator setup.options files.length ready earlier
    let processed := process setup.migrator setup.options file turn.disk turn.store
    let after := processAll setup.migrator setup.options files.length ready files
    (processed.disk = turn.disk ∧ processed.store = turn.store) ∧
      (∀ place, request.disk.placeOf file.place.path = .ok place →
        after.disk.kindAt? place = request.disk.kindAt? place) ∧
      (∀ result ∈ after.summary.results, result.path ≠ file.place.path) ∧
      (∀ change ∈ after.summary.changes, change.path ≠ file.relative) ∧
      after.store.get? file.relative = store.get? file.relative := by
  have member : file ∈ files := by
    simp [isFiles]
  have isOther {other : FoundFile} (inRest : other ∈ earlier ++ later) : other ∈ files := by
    rw [isFiles]
    exact (List.mem_append.mp inRest).elim (List.mem_append_left _)
      fun isLater => List.mem_append_right _ (List.mem_cons_of_mem _ isLater)
  have apart (other : FoundFile) (inRest : other ∈ earlier ++ later) :
      request.disk.placeOf other.place.path ≠ request.disk.placeOf file.place.path := by
    rw [isFiles, List.map_append, List.map_cons, List.nodup_middle, ← List.map_append,
      List.nodup_cons] at distinct
    exact fun same => distinct.1 (List.mem_map.mpr ⟨other, inRest, same⟩)
  have named (other : FoundFile) (isFile : other ∈ files) : other.place.Named :=
    (isReady.candidates other isFile).there.named
  obtain ⟨left, kept, results, changes, answers⟩ := setup.processAll_of_failure notCancelled
    isReady.ordered (isFiles ▸ named) (fun other inRest => by
      rw [isReady.placeOf_eq ordered (isOther inRest), isReady.placeOf_eq ordered member]
      exact apart other inRest) failed
  rw [← isFiles] at kept results changes answers
  refine ⟨left, fun place leads => ?_, fun result isResult samePath => ?_,
    fun change isChange sameName => ?_, ?_⟩
  · obtain ⟨kind, entry⟩ := (isReady.candidates file member).there
    have found := entry.found
    rw [Except.ok.inj (entry.leads.symm.trans leads)] at found
    rw [kept place ((isReady.placeOf_eq ordered member).trans leads), found]
    exact isReady.kept place kind found
  · rcases results result isResult with before | ⟨other, inRest, isPath⟩
    · rw [isReady.results] at before
      cases before
    · exact apart other inRest (by rw [← isPath, samePath])
  · rcases changes change isChange with before | ⟨other, inRest, isName⟩
    · rw [isReady.changes] at before
      cases before
    · have samePlace := isReady.names other (isOther inRest) file member
        (isName.symm.trans sameName)
      exact apart other inRest (by rw [samePlace])
  · rw [answers, isReady.store]
    intro other inRest same
    have samePlace := isReady.names file member other (isOther inRest) same
    exact apart other inRest (by rw [samePlace])

/--
However many files of a run fail, and wherever they stand among the others: each of
them leaves the disk and the store as it found them and shows as one failure only,
and what the run leaves otherwise is what the other files alone come to.  Whether a file
fails does not depend on the others where they keep out of each other's way.
-/
theorem failing_files_leave_others_alone
    {request : Request}
    {failures : String → Option WriteFailure}
    (writes : request.migrator.writer = .failing failures)
    (ordered : request.disk.Ordered)
    (notCancelled : request.options.cancelAfter = none)
    {store : StateStore}
    {ready : State}
    {files : List FoundFile}
    (prepared : request.prepared? store = some (ready, files))
    (distinct : (files.map fun file => request.disk.placeOf file.place.path).Nodup) :
    let parts := parted request.migrator request.options ready.disk ready.store files
    let whole := (run request.migrator request.options request.disk store).state
    let rest := processAll request.migrator request.options parts.passing.length ready parts.passing
    (∀ earlier file later,
      files = earlier ++ file :: later →
        let turn := processAll request.migrator request.options files.length ready earlier
        let processed := process request.migrator request.options file turn.disk turn.store
        (∀ fault, processed.outcome = .error fault →
          processed.disk = turn.disk ∧
            processed.store = turn.store ∧
            (∀ place, request.disk.placeOf file.place.path = .ok place →
              whole.disk.kindAt? place = request.disk.kindAt? place) ∧
            whole.store.get? file.relative = store.get? file.relative ∧
            (∀ result ∈ whole.summary.results, result.path ≠ file.place.path) ∧
            ∀ change ∈ whole.summary.changes, change.path ≠ file.relative) ∧
          (WaysApart ready.disk files →
            processed.outcome =
              (process request.migrator request.options file ready.disk ready.store).outcome)) ∧
      -- no temporary file is left
      (∀ place, (whole.disk.kindAt? place).isSome = (ready.disk.kindAt? place).isSome) ∧
      whole.disk = rest.disk ∧
      (∀ key, whole.store.get? key = rest.store.get? key) ∧
      whole.collector = rest.collector ∧
      whole.summary.failures.Perm (rest.summary.failures ++ parts.failures) ∧
      whole.summary =
        { rest.summary.sort with
          scanned := rest.summary.scanned + parts.failures.length
          failures := whole.summary.failures } := by
  intro parts whole rest
  let setup : Setup := ⟨request.migrator, request.options, failures, writes⟩
  have isReady := ready_of_prepared ordered prepared
  have named (file : FoundFile) (member : file ∈ files) : file.place.Named :=
    (isReady.candidates file member).there.named
  let processed := processAll request.migrator request.options files.length ready files
  have isWhole : whole = record request.migrator request.options request.root
      { processed with summary := processed.summary.sort } :=
    run_eq_of_prepared prepared
  have wholeDisk : whole.disk = processed.disk := by
    rw [isWhole, disk_record]
  have wholeSummary : whole.summary = processed.summary.sort := by
    rw [isWhole, summary_record]
  have wholeStore (key : String) : whole.store.get? key = processed.store.get? key := by
    rw [isWhole, get?_record]
  have further : FurtherFailed parts.failures processed rest :=
    setup.processAll_parted notCancelled isReady.ordered named (.refl ready) files.length
      parts.passing.length
  refine ⟨?_, ?_, ?_, ?_, ?_, ?_, ?_⟩
  · intro earlier file later isFiles turn processedFile
    constructor
    · intro fault failed
      obtain ⟨left, kept, results, changes, answers⟩ :=
        isReady.kept_of_failure setup notCancelled ordered distinct isFiles failed
      refine ⟨left.1, left.2, fun place leads => ?_, ?_, fun result isResult => ?_,
        fun change isChange => ?_⟩
      · rw [wholeDisk]
        exact kept place leads
      · rw [wholeStore]
        exact answers
      · rw [wholeSummary] at isResult
        exact results result ((mem_sortByPath _ _).mp isResult)
      · rw [wholeSummary] at isChange
        exact changes change ((mem_sortByPath _ _).mp isChange)
    · intro ways
      have paths : (files.map (·.place.path)).Nodup :=
        List.Nodup.of_map request.disk.placeOf (by rwa [List.map_map])
      exact setup.outcome_processAll notCancelled isReady.ordered
        (isFiles ▸ isReady.apart ordered ways paths) files.length
  · intro place
    rw [wholeDisk]
    exact (setup.processAll_touches files.length isReady.ordered named).stands place
  · rw [wholeDisk, further.disk]
  · intro key
    rw [wholeStore, further.store]
  · rw [isWhole, collector_record]
    exact further.collector
  · rw [wholeSummary]
    refine (sortByPath_perm _ _).trans (.of_eq ?_)
    rw [further.summary]
    rfl
  · rw [wholeSummary, further.summary]
    simp [Summary.extend, Summary.sort, Tally.addAll]

/-- A run over a script that cannot take the place of the old file, and a link to it. -/
def refusedRename : Request :=
  let request := byDefault
    { root := .directory
        [("a.gd", .file (.text "tool\n".toList) Disk.defaultMode), ("b.gd", .link "a.gd")] }
  { request with
    migrator :=
      { request.migrator with
        writer := .failing fun path =>
          if path = "/a.gd" then some { step := .temporary .rename, cause := .plain "denied" }
          else none } }

theorem ordered_refusedRename :
    refusedRename.disk.Ordered :=
  ⟨.directory (by decide) (by decide)
    (List.forall_mem_cons.mpr ⟨.file _ _, List.forall_mem_singleton.mpr (.link _)⟩), rfl⟩

/-- The refused script is left as it was, and the other one is changed as it would be alone. -/
theorem refused_script_leaves_other_alone :
    let request := refusedRename
    let whole := (run request.migrator request.options request.disk (.memory {})).state
    ∃ ready files,
      request.prepared? (.memory {}) = some (ready, files) ∧
        files.map (·.relative) = ["a.gd", "b.gd"] ∧
        whole.summary.failures.map (·.path) = ["a.gd"] ∧
        whole.disk.kindAt? ["a.gd"] = some (.file (.text "tool\n".toList) Disk.defaultMode) ∧
        whole.disk.kindAt? ["b.gd"] = some (.file (.text "@tool\n".toList) Disk.defaultMode) ∧
        whole.disk =
          (processAll request.migrator request.options 1 ready (files.drop 1)).disk := by
  intro request whole
  let script : FoundFile := ⟨["a.gd"], "a.gd", 5⟩
  let link : FoundFile := ⟨["b.gd"], "b.gd", 4⟩
  have reached :
      ((request.prepared? (.memory {})).map fun reached =>
        let parts := parted request.migrator request.options reached.1.disk reached.1.store reached.2
        let processed :=
          process request.migrator request.options script reached.1.disk reached.1.store
        (reached.2, parts.passing, processed.outcome.toOption.isNone)) =
      some ([script, link], [link], true) := by
    decide +kernel
  have facts :
      whole.summary.failures.map (·.path) = ["a.gd"] ∧
        whole.disk.kindAt? ["b.gd"] =
          some (.file (.text "@tool\n".toList) Disk.defaultMode) := by
    decide +kernel
  obtain ⟨⟨ready, files⟩, prepared, found⟩ := Option.map_eq_some_iff.mp reached
  obtain ⟨rfl, passing, answered⟩ := by
    simpa only [Prod.mk.injEq] using found
  have writes : request.migrator.writer = .failing _ :=
    rfl
  obtain ⟨eachFile, _, sameDisk, _⟩ :=
    failing_files_leave_others_alone writes ordered_refusedRename rfl prepared (by decide +kernel)
  have kept : whole.disk.kindAt? ["a.gd"] = request.disk.kindAt? ["a.gd"] := by
    cases outcome : (process request.migrator request.options script ready.disk ready.store).outcome with
    | ok pair =>
        rw [outcome] at answered
        cases answered
    | error fault =>
        obtain ⟨_, _, kept, _⟩ := (eachFile [] script [link] rfl).1 fault outcome
        exact kept ["a.gd"] (by decide +kernel)
  rw [passing] at sameDisk
  exact ⟨ready, _, prepared, rfl, facts.1, kept.trans (by decide +kernel), facts.2, sameDisk⟩

end Request

end Migration

end ScriptUplift
