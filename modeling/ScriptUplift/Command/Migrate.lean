import ScriptUplift.Command.Session
import ScriptUplift.Summary.Printer

namespace ScriptUplift

/-!
# The command that migrates

The files of the project, or the ones that are given, are brought up to date in
place.  A dry run tells what it would change and writes nothing.
-/

namespace Session

/-- The session after the flags had their say. -/
def withFlags
    (session : Session)
    (flags : MigrateFlags) :
    Session :=
  { session with
    config :=
      { session.config with
        backup := flags.backup.getD session.config.backup
        jobs := flags.jobs.getD session.config.jobs } }

/-- The event about a database that had to be changed. -/
def upgradeEvents
    (plan : UpgradePlan) :
    List LogEvent :=
  let fields := [("reason", LogValue.text ((plan.reason.map UpgradeReason.text).getD ""))]
  if plan.needsRebuild then
    [{ level := .info, message := "clean-file cache cleared", fields }]
  else if plan.needsMigration then
    [{ level := .debug, message := "state database migrated", fields }]
  else
    []

/-- A store that is ready, and the disk it is on. -/
structure OpenState where
  store : StateStore
  disk : Disk
  log : List LogEvent := []

/-- Whether a run remembers anything after it. -/
def persists
    (session : Session)
    (flags : MigrateFlags) :
    Bool :=
  !flags.dryRun && session.config.cache

/-- Open the store of a run: the database of the project, or one that is forgotten. -/
def openStore
    (session : Session)
    (flags : MigrateFlags)
    (disk : Disk) :
    Except CommandFault OpenState := do
  if session.persists flags then
    let ready ←
      (disk.makeDirectories (Config.stateDirPath session.root)).mapError .stateDirectory
    let (database, opened) ←
      (Database.openFile ready (Config.databasePath session.root)).mapError .database
    let (plan, prepared) := database.prepare session.config
    return { store := .database prepared, disk := opened, log := upgradeEvents plan }
  else
    return { store := .memory {}, disk := disk }

/-- Write the store of a run back to its file. -/
def closeState
    (session : Session)
    (store : StateStore)
    (disk : Disk) :
    Disk :=
  match store with
  | .database database =>
      (database.save disk (Config.databasePath session.root)).toOption.getD disk
  | _ => disk

/-- The event about the start of a run. -/
def startEvent
    (session : Session)
    (flags : MigrateFlags) :
    LogEvent where
  level := .info
  message := "migration started"
  fields := [("root", .text session.root), ("dry_run", .flag flags.dryRun)]

/-- What a run is asked to do. -/
def migrationOptions
    (session : Session)
    (flags : MigrateFlags)
    (files : List String) :
    MigrationOptions where
  root := session.root
  files := files
  dryRun := flags.dryRun
  backup := session.config.backup
  backupStem := session.config.backupStem
  diff := flags.diff
  useCache := session.config.cache && !flags.noCache && !flags.dryRun

/-- What a run prints. -/
def migrationText
    (flags : MigrateFlags)
    (ending : Migration.Ending) :
    String :=
  if ending.reached then
    ending.state.summary.changesText flags.dryRun flags.diff ++
      ending.state.summary.text flags.dryRun false
  else
    ""

/-- Prepare a run, up to the store it uses. -/
def prepare
    (session : Session)
    (flags : MigrateFlags)
    (disk : Disk) :
    Except CommandFault (Migrator × OpenState) := do
  if !disk.isDirectory session.root then
    throw (.rootMissing session.root)
  match session.config.fault? with
  | some fault => throw (.settings fault)
  | none =>
      let migrator ← session.migrator flags.excludeDirs {} disk
      return (migrator, ← session.openStore flags disk)

/-- The disk after a preparation that was stopped: the state directory may have been made. -/
def abandoned
    (session : Session)
    (disk : Disk) :
    CommandFault → Disk
  | .database _ =>
      (disk.makeDirectories (Config.stateDirPath session.root)).toOption.getD disk
  | _ => disk

/-- Migrate the files of a project. -/
def migrate
    (base : Session)
    (flags : MigrateFlags)
    (files : List String)
    (disk : Disk) :
    Outcome :=
  let session := base.withFlags flags
  match session.prepare flags disk with
  | .error fault =>
      .stopped (session.abandoned disk fault) fault
  | .ok (migrator, opened) =>
      let ending :=
        Migration.run migrator (session.migrationOptions flags files) opened.disk opened.store
      let state := ending.state
      { disk := session.closeState state.store state.disk
        output := migrationText flags ending
        log := session.shown (opened.log ++ session.startEvent flags :: state.log)
        code := ExitCode.ofRun state.summary ending.fault
        fault := ending.fault.map .run }

end Session

end ScriptUplift
