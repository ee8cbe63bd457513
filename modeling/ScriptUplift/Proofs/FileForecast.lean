import Mathlib.Data.List.Nodup
import Mathlib.Tactic.Common
import ScriptUplift.Proofs.CleanCache
import ScriptUplift.Proofs.LinkedPaths
import ScriptUplift.Proofs.WriteSteps

namespace ScriptUplift

/-!
# What becomes of a file

What a run makes of a file can be told in advance from what its path reads as and
what the store knows about it: the new content, the hash to remember, and the
result or the fault.  Processing the file does that, at the entry its path leads to and
under its own key, where a link is replaced by the file that is written.
-/

namespace Migration

/-- What a run works with, where some writes fail. -/
structure Setup where
  migrator : Migrator
  options : MigrationOptions
  failures : String → Option WriteFailure
  writes : migrator.writer = .failing failures

/-- What is to become of a file. -/
structure Forecast where
  written? : Option Text := none
  /-- The hash that is remembered. -/
  remembered? : Option String := none
  outcome : Except Fault (FileResult × Option FileChange)

namespace Forecast

/-- What stands at the place of the file in the end; a new file gets the given permissions. -/
def kind
    (forecast : Forecast)
    (mode : Nat)
    (held : Node.Kind) :
    Node.Kind :=
  match forecast.written? with
  | some text => .file (.text text) mode
  | none => held

/-- Remember the file in a store. -/
def remember
    (forecast : Forecast)
    (relative ruleHash : String)
    (now : Int)
    (store : StateStore) :
    StateStore :=
  match forecast.remembered? with
  | none => store
  | some hash => (store.put relative ⟨hash, ruleHash, now⟩).toOption.getD store

/-- Add the file to a summary. -/
def count
    (forecast : Forecast)
    (relative : String)
    (summary : Summary) :
    Summary :=
  match forecast.outcome with
  | .error fault => summary.fail relative fault
  | .ok (result, change) => summary.merge result change

/-- Gather the records of the file. -/
def gather
    (forecast : Forecast)
    (collector : Collector) :
    Collector :=
  match forecast.outcome with
  | .error _ => collector
  | .ok (result, _) => if result.cached then collector else collector.consume result

end Forecast

theorem askCache_congr
    {migrator : Migrator}
    {store other : StateStore}
    {relative : String}
    (same : store.get? relative = other.get? relative)
    (hash : String) :
    askCache migrator store relative hash = askCache migrator other relative hash := by
  unfold askCache
  rw [same]

namespace Setup

variable (setup : Setup) (file : FoundFile)

/-- Whether the output of a pass has to be written. -/
def rewrites
    (content : Text)
    (source : Source) :
    Bool :=
  (changeOf setup.options file content source.render source.report).isSome &&
    !setup.options.dryRun

/-- What becomes of a file whose output is in place. -/
def forecastWritten
    (content : Text)
    (source : Source) :
    Forecast :=
  let change := changeOf setup.options file content source.render source.report
  { written? := if setup.rewrites file content source then some source.render else none
    remembered? :=
      if setup.options.useCache && !setup.options.dryRun && source.report.issues.isEmpty then
        some (fingerprintOf source.render)
      else
        none
    outcome := .ok (resultOf file source change.isSome, change) }

/-- What becomes of a file whose output could not be written. -/
def forecastUnwritten
    (fault : Fault) :
    Forecast where
  outcome := .error (.onFile .write file.relative fault)

/-- What becomes of a file that passed the pipeline. -/
def forecastPassed
    (content : Text)
    (source : Source) :
    Forecast :=
  match if setup.rewrites file content source then setup.failures file.place.path else none with
  | some failure => forecastUnwritten file (failure.fault file.place.path)
  | none => setup.forecastWritten file content source

/-- What becomes of a file that goes through the pipeline. -/
def forecastRun
    (content : Text) :
    Forecast :=
  match setup.migrator.pipeline.run file.relative content with
  | (source, .done) =>
      setup.forecastPassed file content source
  | (_, .failed fault) =>
      { outcome := .error fault }
  | (_, .crashed message) =>
      { outcome :=
          .error (.onFile .precondition file.relative (.because .contract ("panic: " ++ message))) }

/-- Whether the store knows a content to be clean. -/
def knows
    (content : Text)
    (store : StateStore) :
    Bool :=
  setup.options.useCache &&
    askCache setup.migrator store file.relative (fingerprintOf content) == .clean

/-- What becomes of a file with a content. -/
def forecastOf
    (content : Text)
    (store : StateStore) :
    Forecast :=
  if setup.knows file content store then { outcome := .ok (cachedResult setup.migrator file, none) }
  else setup.forecastRun file content

/-- What becomes of a file, given what it reads as. -/
def forecastRead
    (store : StateStore) :
    Except ReadFault Text → Forecast
  | .error fault => { outcome := .error (.onFile .read file.relative (.plain fault.message)) }
  | .ok content => setup.forecastOf file content store

/-- What becomes of a file. -/
def forecast
    (disk : Disk)
    (store : StateStore) :
    Forecast :=
  setup.forecastRead file store (disk.readText file.place.path)

variable {file} {disk : Disk} {store : StateStore}

/-- The forecast depends on what the path reads as and on the record of the file only. -/
theorem forecast_congr
    {otherDisk : Disk}
    {otherStore : StateStore}
    (sameText : otherDisk.readText file.place.path = disk.readText file.place.path)
    (sameRecord : otherStore.get? file.relative = store.get? file.relative) :
    setup.forecast file otherDisk otherStore = setup.forecast file disk store := by
  unfold forecast
  rw [sameText]
  cases disk.readText file.place.path with
  | error fault =>
      rfl
  | ok content =>
      unfold forecastRead forecastOf knows
      dsimp only
      rw [askCache_congr sameRecord]

theorem remember_eq
    (file : FoundFile)
    (content : Text)
    (source : Source)
    (now : Int)
    (store : StateStore) :
    (Migration.remember { setup.migrator with now := now } setup.options file source.report
        source.render store).1 =
      (setup.forecastWritten file content source).remember file.relative setup.migrator.ruleHash
        now store := by
  unfold Migration.remember Forecast.remember forecastWritten
  dsimp only
  by_cases asked :
      (setup.options.useCache && !setup.options.dryRun && source.report.issues.isEmpty) = true
  · rw [if_pos asked, if_pos asked]
    dsimp only
    cases store.put file.relative
        ⟨fingerprintOf source.render, setup.migrator.ruleHash, now⟩ <;> rfl
  · rw [if_neg asked, if_neg asked]

/-- What processing a file leaves is what was forecast, at its own entry and under its own key. -/
structure Fulfils
    (setup : Setup)
    (file : FoundFile)
    (disk : Disk)
    (store : StateStore)
    (forecast : Forecast)
    (processed : Processed) :
    Prop where
  outcome : processed.outcome = forecast.outcome
  disk : ∀ place kind, disk.Entry file.place place kind →
    disk.Changed place (some (forecast.kind (disk.modeFor file.place.path) kind)) processed.disk
  store : processed.store =
    forecast.remember file.relative setup.migrator.ruleHash setup.migrator.now store

variable {setup} in
theorem Fulfils.unchanged
    (ordered : disk.Ordered)
    (log : List LogEvent)
    (outcome : Except Fault (FileResult × Option FileChange)) :
    setup.Fulfils file disk store { outcome := outcome } { disk, store, log, outcome } where
  outcome := rfl
  disk := by
    intro place kind entry
    exact Disk.Changed.idle ordered entry.found
  store := rfl

theorem finish_fulfils
    (store : StateStore)
    (ordered : disk.Ordered)
    {place : Place}
    {held : Node.Kind}
    (entry : disk.Entry file.place place held)
    (content : Text)
    (source : Source)
    (log : List LogEvent) :
    setup.Fulfils file disk store (setup.forecastPassed file content source)
      (finish setup.migrator setup.options file content source disk store log) := by
  have remembered := setup.remember_eq file content source setup.migrator.now store
  unfold finish forecastPassed
  by_cases rewrites : setup.rewrites file content source = true
  · rw [if_pos rewrites]
    unfold Setup.rewrites at rewrites
    dsimp only
    rw [if_pos rewrites, setup.writes]
    unfold FileWriter.failing
    cases failing : setup.failures file.place.path with
    | some failure =>
        dsimp only
        rw [FileWriter.run_of_failure ordered entry]
        exact .unchanged ordered _ _
    | none =>
        obtain ⟨after, replaced, changed⟩ :=
          FileWriter.replace_spec ordered entry (.text source.render)
        dsimp only
        rw [replaced]
        refine ⟨rfl, ?_, remembered⟩
        intro other kind isEntry
        obtain ⟨rfl, rfl⟩ := entry.eq_of_entry isEntry
        have writtenText : (setup.forecastWritten file content source).written? =
            some source.render := by
          unfold forecastWritten Setup.rewrites
          rw [if_pos rewrites]
        unfold Forecast.kind
        rw [writtenText]
        exact changed
  · rw [if_neg rewrites]
    have kept : (setup.forecastWritten file content source).written? = none := by
      unfold forecastWritten
      rw [if_neg rewrites]
    unfold Setup.rewrites at rewrites
    dsimp only
    rw [if_neg rewrites]
    refine ⟨rfl, ?_, remembered⟩
    intro other kind isEntry
    unfold Forecast.kind
    rw [kept]
    exact Disk.Changed.idle ordered isEntry.found

theorem transform_fulfils
    (store : StateStore)
    (ordered : disk.Ordered)
    {place : Place}
    {held : Node.Kind}
    (entry : disk.Entry file.place place held)
    (content : Text)
    (log : List LogEvent) :
    setup.Fulfils file disk store (setup.forecastRun file content)
      (transform setup.migrator setup.options file content disk store log) := by
  unfold transform forecastRun
  obtain ⟨source, ending⟩ := setup.migrator.pipeline.run file.relative content
  cases ending with
  | done =>
      exact setup.finish_fulfils store ordered entry content source log
  | failed fault | crashed message =>
      exact .unchanged ordered _ _

/-- Processing a file does what was forecast. -/
theorem process_fulfils
    (store : StateStore)
    (ordered : disk.Ordered)
    (named : file.place.Named) :
    setup.Fulfils file disk store (setup.forecast file disk store)
      (process setup.migrator setup.options file disk store) := by
  unfold process forecast forecastRead
  cases read : disk.readText file.place.path with
  | error fault =>
      exact .unchanged ordered _ _
  | ok content =>
      obtain ⟨_, _, entry⟩ := Disk.Entry.exists_of_readText ordered named read
      have passes := setup.transform_fulfils store ordered entry content
      dsimp only
      unfold forecastOf knows
      by_cases asked : setup.options.useCache = true
      · rw [if_pos asked, asked, Bool.true_and]
        cases answer : askCache setup.migrator store file.relative (fingerprintOf content) with
        | clean =>
            exact .unchanged ordered _ _
        | unknown =>
            exact passes []
        | failed fault =>
            exact passes _
      · rw [if_neg asked, Bool.eq_false_iff.mpr asked, Bool.false_and]
        exact passes []

end Setup

end Migration

end ScriptUplift
