import ScriptUplift.Config.Fingerprint
import ScriptUplift.Entries
import ScriptUplift.State.Record
import ScriptUplift.State.RunKey

namespace ScriptUplift

/-!
# The state database

The store that outlives the process: the cache of clean files, the history of
runs, and the schema under which they were written.  A cache that was written
under another configuration, or by a newer program, is not trusted and dropped.
-/

/-- A stored value. -/
inductive Stored (α : Type)
  | sound (value : α)
  /-- The value cannot be understood. -/
  | garbled
  deriving Repr, DecidableEq

/-- The value, if it can be understood. -/
def Stored.value? : Stored α → Option α
  | .sound value => some value
  | .garbled => none

/-- The content of a state database. -/
structure Database where
  files : List (String × Stored FileRecord) := []
  /-- The history; the number of a run is in its key and not in its record. -/
  runs : List (RunKey × Stored RunRecord) := []
  /-- The number of the last run. -/
  sequence : Nat := 0
  version : Option (Stored Int) := none
  configHash : String := ""
  deriving Repr, DecidableEq

/-- The schema of a database and the fingerprint of its configuration. -/
structure SchemaInfo where
  version : Int
  configHash : String
  deriving Repr, DecidableEq

/-- Why a database has to be changed before it is used. -/
inductive UpgradeReason
  | initial
  | older (version : Int)
  | newer (version : Int)
  | rulesChanged
  deriving Repr, DecidableEq

namespace Database

/-- The schema this program writes. -/
def currentVersion : Int :=
  2

/-- The largest key in bytes. -/
def keyLimit : Nat :=
  32768

/-- Whether a key can be written. -/
def keyFault?
    (key : String) :
    Option StoreFault :=
  if key = "" then some .keyRequired
  else if keyLimit < key.utf8ByteSize then some .keyTooLarge
  else none

/-- What is known about a file. -/
def get?
    (database : Database)
    (key : String) :
    Except StoreFault (Option FileRecord) :=
  match database.files.lookup key with
  | none => .ok none
  | some (.sound record) => .ok (some record)
  | some .garbled => .error (.garbled key)

/-- Let a key of the cache hold a value. -/
def store
    (database : Database)
    (key : String)
    (value : Stored FileRecord) :
    Except StoreFault Database :=
  match keyFault? key with
  | some fault => .error fault
  | none => .ok { database with files := Entries.insert key value database.files }

/-- Remember a clean file. -/
def put
    (database : Database)
    (key : String)
    (record : FileRecord) :
    Except StoreFault Database :=
  database.store key (.sound record.stored)

/-- Forget a file. -/
def delete
    (database : Database)
    (key : String) :
    Database :=
  { database with files := Entries.erase key database.files }

/-- Add a run to the history under the next number. -/
def addRun
    (database : Database)
    (run : RunRecord) :
    Nat × Database :=
  let id := database.sequence + 1
  (id, { database with
    sequence := id
    runs := Entries.insert (RunKey.ofNumber id) (.sound { run.stored with id := 0 })
      database.runs })

/-- The runs that can be understood, with the numbers of their keys, from the last key on. -/
def listRuns
    (database : Database)
    (limit : Int) :
    List RunRecord :=
  takeLimit limit (database.runs.reverse.filterMap fun entry =>
    entry.2.value?.map fun run => { run with id := entry.1.number })

/-- The number of files in the cache. -/
def countFiles
    (database : Database) :
    Nat :=
  database.files.length

/-- The schema; a version that cannot be understood counts as the first. -/
def schema
    (database : Database) :
    SchemaInfo where
  version :=
    match database.version with
    | none => 0
    | some (.sound version) => version
    | some .garbled => 1
  configHash :=
    database.configHash

/-- Set the schema. -/
def setSchema
    (database : Database)
    (info : SchemaInfo) :
    Database :=
  { database with version := some (.sound info.version), configHash := info.configHash }

/-- Drop the cache; history and schema stay. -/
def clear
    (database : Database) :
    Database :=
  { database with files := [] }

end Database

/-- The text of a reason. -/
def UpgradeReason.text : UpgradeReason → String
  | .initial =>
      "initializing schema version"
  | .older version =>
      "schema upgrade from v" ++ toString version ++ " to v" ++ toString Database.currentVersion
  | .newer version =>
      "database created by newer version (v" ++ toString version ++ " > v" ++
        toString Database.currentVersion ++ ")"
  | .rulesChanged =>
      "rule configuration changed"

/-- What has to be done to a database before it is used. -/
structure UpgradePlan where
  needsMigration : Bool
  needsRebuild : Bool
  oldVersion : Int
  reason : Option UpgradeReason
  deriving Repr, DecidableEq

namespace Database

/-- What the version of a database alone asks for. -/
def versionPlan
    (version : Int) :
    UpgradePlan :=
  if version = 0 then ⟨true, false, version, some .initial⟩
  else if version < currentVersion then ⟨true, false, version, some (.older version)⟩
  else if currentVersion < version then ⟨false, true, version, some (.newer version)⟩
  else ⟨false, false, version, none⟩

/-- Whether a cache was written under another fingerprint. -/
def rulesChanged
    (info : SchemaInfo)
    (fingerprint : String) :
    Bool :=
  info.configHash != "" && info.configHash != fingerprint

/-- What has to be done to use a database under a configuration. -/
def plan
    (database : Database)
    (config : Config) :
    UpgradePlan :=
  let info := database.schema
  let byVersion := versionPlan info.version
  if byVersion.needsRebuild then
    byVersion
  else if rulesChanged info config.fingerprint then
    { byVersion with needsRebuild := true, reason := some .rulesChanged }
  else
    byVersion

/--
Bring the schema up to date.  The steps from older schemas only make sure that
there is a history, as there is in every database.
-/
def migrate
    (database : Database)
    (config : Config) :
    Database :=
  database.setSchema ⟨currentVersion, config.fingerprint⟩

/-- Make a database ready for a configuration. -/
def prepare
    (database : Database)
    (config : Config) :
    UpgradePlan × Database :=
  let plan := database.plan config
  let trusted := if plan.needsRebuild then database.clear else database
  (plan,
    if plan.needsRebuild || plan.needsMigration then trusted.migrate config else trusted)

end Database

end ScriptUplift
