import ScriptUplift.Digest.Sha256
import ScriptUplift.Diff.Unified
import ScriptUplift.Disk.AtomicWrite
import ScriptUplift.Disk.Backup
import ScriptUplift.Log
import ScriptUplift.Pipeline
import ScriptUplift.State.Store
import ScriptUplift.Summary.Exit

namespace ScriptUplift

/-!
# Migrating a project

A run takes every candidate file through the pipeline, one after another.  What
goes wrong with one file is told in the summary and does not concern the others;
only discovery, the backup and cancellation end a run.

A file that is known to be clean under the same rules is not processed again.
-/

/-- How a file is written: the new disk and what went wrong. -/
abbrev FileWriter := Disk → String → Text → Disk × Option Fault

/-- Write a file atomically. -/
def FileWriter.atomic : FileWriter :=
  fun disk path text => disk.replace path (.text text)

/-- What a run works with. -/
structure Migrator where
  pipeline : Pipeline
  walker : Walker
  writer : FileWriter
  /-- The fingerprint of the rules. -/
  ruleHash : String
  /-- The time of the run. -/
  now : Int
  /-- Where the findings of the run go. -/
  collector : Collector := {}

/-- What one run is asked to do. -/
structure MigrationOptions where
  root : String
  /-- The files to migrate instead of the ones below the root. -/
  files : List String := []
  dryRun : Bool := false
  backup : Bool := false
  backupStem : String := ""
  diff : Bool := false
  useCache : Bool := false
  /-- The number of finished files after which the run is cancelled. -/
  cancelAfter : Option Nat := none
  deriving Repr, DecidableEq

/-- The hash of a text. -/
def fingerprintOf
    (content : Text) :
    String :=
  hexText (Sha256.digest content.utf8)

namespace Migration

/-- The event about a file that failed. -/
def failureEvent
    (path : String)
    (fault : Fault) :
    LogEvent :=
  if fault.kind = .precondition || fault.isContract then
    { level := .error
      message := "stage contract violated"
      fields := [("path", .text path), ("contract", .flag true), ("error", .text fault.message)] }
  else
    { level := .warn
      message := "file skipped"
      fields := [("path", .text path), ("error", .text fault.message)] }

/-- A warning about the store. -/
def storeWarning
    (message path : String)
    (fault : StoreFault) :
    LogEvent where
  level := .warn
  message := message
  fields := [("path", .text path), ("error", .text fault.message)]

/-- The event about an issue. -/
def issueEvent
    (path : String)
    (issue : Issue) :
    LogEvent where
  level := .debug
  message := issue.message
  fields :=
    [("path", .text path), ("line", .number issue.line), ("kind", .text issue.kind.name)]

/-- What processing a file leaves behind. -/
structure Processed where
  disk : Disk
  store : StateStore
  log : List LogEvent := []
  outcome : Except Fault (FileResult × Option FileChange)

/-- What the store knows about a file. -/
inductive CacheAnswer
  | clean
  | unknown
  | failed (fault : StoreFault)
  deriving Repr, DecidableEq

/-- Ask the store whether a content is known to be clean. -/
def askCache
    (migrator : Migrator)
    (store : StateStore)
    (relative hash : String) :
    CacheAnswer :=
  match store.get? relative with
  | .error fault => .failed fault
  | .ok none => .unknown
  | .ok (some record) =>
      if record.hash = hash && record.ruleHash = migrator.ruleHash then .clean else .unknown

/-- The result of a file that is known to be clean. -/
def cachedResult
    (migrator : Migrator)
    (file : FoundFile) :
    FileResult where
  path := file.place.path
  relative := file.relative
  report := some (Report.register {} migrator.pipeline.counters)
  cached := true

/-- The result of a file that passed the pipeline. -/
def resultOf
    (file : FoundFile)
    (source : Source)
    (changed : Bool) :
    FileResult where
  path := file.place.path
  relative := file.relative
  lines := source.texts
  categories := source.categories
  report := some source.report
  changed := changed

/-- The change of a file, if there is one. -/
def changeOf
    (options : MigrationOptions)
    (file : FoundFile)
    (content output : Text)
    (report : Report) :
    Option FileChange :=
  if output = content then
    none
  else
    some { path := file.relative
           fixes := report.fixes
           diff :=
             if options.diff then String.ofList (Diff.unified file.relative content output) else "" }

/-- Remember a file that came out without issues. -/
def remember
    (migrator : Migrator)
    (options : MigrationOptions)
    (file : FoundFile)
    (report : Report)
    (output : Text)
    (store : StateStore) :
    StateStore × List LogEvent :=
  if options.useCache && !options.dryRun && report.issues.isEmpty then
    match store.put file.relative ⟨fingerprintOf output, migrator.ruleHash, migrator.now⟩ with
    | .ok remembered => (remembered, [])
    | .error fault => (store, [storeWarning "failed to update cache" file.relative fault])
  else
    (store, [])

/-- Write, remember and report a file that passed the pipeline. -/
def finish
    (migrator : Migrator)
    (options : MigrationOptions)
    (file : FoundFile)
    (content : Text)
    (source : Source)
    (disk : Disk)
    (store : StateStore)
    (log : List LogEvent) :
    Processed :=
  let output := source.render
  let change := changeOf options file content output source.report
  let events := log ++ source.report.issues.map (issueEvent file.relative)
  let (written, fault) :=
    if change.isSome && !options.dryRun then migrator.writer disk file.place.path output
    else (disk, none)
  match fault with
  | some fault =>
      { disk := written
        store := store
        log := events
        outcome := .error (.onFile .write file.relative fault) }
  | none =>
      let (remembered, warnings) := remember migrator options file source.report output store
      { disk := written
        store := remembered
        log := events ++ warnings
        outcome := .ok (resultOf file source change.isSome, change) }

/-- Take the content of a file through the pipeline. -/
def transform
    (migrator : Migrator)
    (options : MigrationOptions)
    (file : FoundFile)
    (content : Text)
    (disk : Disk)
    (store : StateStore)
    (log : List LogEvent) :
    Processed :=
  match migrator.pipeline.run file.relative content with
  | (source, .done) =>
      finish migrator options file content source disk store log
  | (_, .failed fault) =>
      { disk, store, log, outcome := .error fault }
  | (_, .crashed message) =>
      { disk, store, log
        outcome :=
          .error (.onFile .precondition file.relative (.because .contract ("panic: " ++ message))) }

/-- Process one file. -/
def process
    (migrator : Migrator)
    (options : MigrationOptions)
    (file : FoundFile)
    (disk : Disk)
    (store : StateStore) :
    Processed :=
  match disk.readText file.place.path with
  | .error fault =>
      { disk, store
        outcome := .error (.onFile .read file.relative (.plain fault.message)) }
  | .ok content =>
      if options.useCache then
        match askCache migrator store file.relative (fingerprintOf content) with
        | .clean =>
            { disk, store, outcome := .ok (cachedResult migrator file, none) }
        | .unknown =>
            transform migrator options file content disk store []
        | .failed fault =>
            transform migrator options file content disk store
              [storeWarning "failed to read cache" file.relative fault]
      else
        transform migrator options file content disk store []

/-- A file of which a run was told that it is finished. -/
structure Progress where
  done : Nat
  total : Nat
  relative : String
  deriving Repr, DecidableEq

/-- The state of a run. -/
structure State where
  disk : Disk
  store : StateStore
  summary : Summary := {}
  collector : Collector := {}
  log : List LogEvent := []
  progress : List Progress := []

/-- Add an event to the log of a run. -/
def State.tell
    (state : State)
    (event : LogEvent) :
    State :=
  { state with log := state.log ++ [event] }

/-- Fold what processing a file left behind into a run. -/
def State.absorb
    (state : State)
    (relative : String)
    (processed : Processed) :
    State :=
  let base :=
    { state with
      disk := processed.disk
      store := processed.store
      log := state.log ++ processed.log }
  match processed.outcome with
  | .error fault =>
      { base.tell (failureEvent relative fault) with
        summary := state.summary.fail relative fault }
  | .ok (result, change) =>
      { base with
        summary := state.summary.merge result change
        collector := if result.cached then state.collector else state.collector.consume result }

/-- Process the files of a run until it is cancelled. -/
def processAll
    (migrator : Migrator)
    (options : MigrationOptions)
    (total : Nat) :
    State → List FoundFile → State
  | state, [] =>
      state
  | state, file :: rest =>
      if options.cancelAfter.any (· ≤ state.progress.length) then
        state
      else
        let next := state.absorb file.relative
          (process migrator options file state.disk state.store)
        processAll migrator options total
          { next with
            progress := state.progress ++ [⟨state.progress.length + 1, total, file.relative⟩] }
          rest

/-- The file at a path that was given. -/
def givenFile
    (disk : Disk)
    (root : Place)
    (path : String) :
    Except Fault FoundFile :=
  let place := Path.place disk.workDir path
  match disk.find place.path with
  | .error cause =>
      .error (.plain (DiskFault.message ⟨"stat", place.path, cause⟩))
  | .ok (.file content _) =>
      let relative := Path.relative root place
      .ok { place := place
            relative := if relative.startsWith ".." then place.path else relative
            size := content.size }
  | .ok _ =>
      .error (.plain (path ++ " is a directory"))

/-- The files that were given; the ones that are not there fail at once. -/
def givenFiles
    (root : Place) :
    State → List String → State × List FoundFile
  | state, [] =>
      (state, [])
  | state, path :: rest =>
      match givenFile state.disk root path with
      | .ok file =>
          let (last, files) := givenFiles root state rest
          (last, file :: files)
      | .error cause =>
          let fault := Fault.onFile .read path cause
          givenFiles root
            { state.tell (failureEvent path fault) with
              summary := state.summary.fail path fault }
            rest

/-- The files a run is about. -/
def candidates
    (migrator : Migrator)
    (options : MigrationOptions)
    (root : Place)
    (state : State) :
    Except Fault (State × List FoundFile) :=
  if options.files.isEmpty then
    match migrator.walker.walk state.disk root.path with
    | .ok files => .ok (state, files)
    | .error fault => .error (.during "failed to walk directory" (.plain fault.message))
  else
    .ok (givenFiles root state options.files)

/-- The place of the backup of a run. -/
def backupPlace
    (migrator : Migrator)
    (options : MigrationOptions)
    (root : Place) :
    Place :=
  Path.cleanNames (Path.join root.path
    (options.backupStem ++ Clock.compactStamp (migrator.now.fdiv Clock.second)))

/-- Make the backup a run was asked for. -/
def backUp
    (migrator : Migrator)
    (options : MigrationOptions)
    (root : Place)
    (state : State) :
    State × Option Fault :=
  if options.backup && !options.dryRun then
    let target := backupPlace migrator options root
    match state.disk.backup root target (some migrator.walker) with
    | (disk, .ok count) =>
        (State.tell { state with disk }
          { level := .info
            message := "backup created"
            fields := [("dest", .text target.path), ("files", .number count)] }, none)
    | (disk, .error fault) =>
        ({ state with disk }, some (.onFile .write target.path fault))
  else
    (state, none)

/-- The entry of a run in the history. -/
def runRecord
    (migrator : Migrator)
    (options : MigrationOptions)
    (root : Place)
    (summary : Summary) :
    RunRecord where
  started := migrator.now
  duration := 0
  root := root.path
  dryRun := options.dryRun
  scanned := summary.scanned
  modified := summary.modified
  cached := summary.cached
  fixes := summary.fixes
  unresolved := summary.unresolved
  failures := summary.failures.length

/-- Add a run that was not dry to the history. -/
def record
    (migrator : Migrator)
    (options : MigrationOptions)
    (root : Place)
    (state : State) :
    State :=
  if options.dryRun then
    state
  else
    match state.store.addRun (runRecord migrator options root state.summary) with
    | .ok (_, store) =>
        { state with store }
    | .error fault =>
        state.tell
          { level := .warn
            message := "failed to record run history"
            fields := [("error", .text fault.message)] }

/-- How a run ended. -/
structure Ending where
  state : State
  /-- The run came to the files. -/
  reached : Bool
  fault : Option Fault

/-- Migrate a project. -/
def run
    (migrator : Migrator)
    (options : MigrationOptions)
    (disk : Disk)
    (store : StateStore) :
    Ending :=
  let root := Path.place disk.workDir options.root
  let start : State :=
    { disk, store
      summary := Summary.register {} migrator.pipeline.counters
      collector := migrator.collector }
  match candidates migrator options root start with
  | .error fault =>
      ⟨start, false, some fault⟩
  | .ok (found, files) =>
      let collected := found.tell
        { level := .debug
          message := "candidates collected"
          fields := [("files", .number files.length), ("root", .text root.path)] }
      match backUp migrator options root collected with
      | (failed, some fault) =>
          ⟨failed, false, some fault⟩
      | (ready, none) =>
          let processed := processAll migrator options files.length ready files
          let sorted := { processed with summary := processed.summary.sort }
          ⟨record migrator options root sorted, true,
            if options.cancelAfter.any (· ≤ sorted.progress.length) then some .cancelled else none⟩

end Migration

end ScriptUplift
