import ScriptUplift.Disk.Basic

namespace ScriptUplift

/-!
# Database files

A database is opened from its file; a file that is missing or empty becomes a new
database.
-/

/-- Why a database cannot be opened. -/
inductive OpenFault
  | disk (fault : DiskFault)
  /-- The file holds something else. -/
  | invalid
  deriving Repr, DecidableEq

/-- The text about a database that cannot be opened. -/
def OpenFault.message : OpenFault → String
  | .disk fault => "failed to open bolt db: " ++ fault.message
  | .invalid => "failed to open bolt db: invalid database"

namespace Database

/-- The permissions of a new database file. -/
def fileMode : Nat :=
  0o600

/-- The database a file holds. -/
def ofContent? : Content → Option Database
  | .database database => some database
  | .text [] => some {}
  | _ => none

/-- Write a database to its file. -/
def save
    (database : Database)
    (disk : Disk)
    (path : String) :
    Except DiskFault Disk :=
  disk.write path (.database database) fileMode

/-- Open the database at a path. -/
def openFile
    (disk : Disk)
    (path : String) :
    Except OpenFault (Database × Disk) :=
  let held :=
    match disk.file? path with
    | some (content, _) => ofContent? content
    | none => some {}
  match held with
  | none =>
      .error .invalid
  | some database =>
      match database.save disk path with
      | .error fault => .error (.disk fault)
      | .ok saved => .ok (database, saved)

end Database

end ScriptUplift
