import ScriptUplift.State.Database
import ScriptUplift.Text.Basic

namespace ScriptUplift

/-!
# The image of a database

Outside the program a database is a text: a heading, and one line for each thing
it holds.  The fields of a line are separated by tabs; a tab, a line end and a
backslash in a field are written with a backslash.
-/

namespace DatabaseImage

/-- The first line of an image. -/
def heading : String :=
  "uplift state"

/-- A character of a field as it is written. -/
def escapeChar
    (character : Char) :
    Text :=
  if character = '\t' then ['\\', 't']
  else if character = '\n' then ['\\', 'n']
  else if character = '\\' then ['\\', '\\']
  else [character]

/-- A field as it is written. -/
def escape
    (field : String) :
    String :=
  String.ofList (field.toList.flatMap escapeChar)

/-- Read what was written for a field. -/
def unescape : Text → Text
  | '\\' :: 't' :: rest => '\t' :: unescape rest
  | '\\' :: 'n' :: rest => '\n' :: unescape rest
  | '\\' :: character :: rest => character :: unescape rest
  | character :: rest => character :: unescape rest
  | [] => []

/-- A line with its fields. -/
def line
    (fields : List String) :
    String :=
  "\t".intercalate (fields.map escape)

/-- The fields of a line. -/
def fieldsOf
    (text : Text) :
    List String :=
  (Text.splitAt '\t' text).map fun field => String.ofList (unescape field)

/-- The fields of what is remembered of a file. -/
def fileFields : Stored FileRecord → List String
  | .sound record => [record.hash, record.ruleHash, toString record.checkedAt]
  | .garbled => []

/-- The fields of a run. -/
def runFields : Stored RunRecord → List String
  | .sound run =>
      [toString run.started, toString run.duration, run.root, toString run.dryRun,
       toString run.scanned, toString run.modified, toString run.cached, toString run.fixes,
       toString run.unresolved, toString run.failures]
  | .garbled => []

/-- The line of the version. -/
def versionLines : Option (Stored Int) → List String
  | none => []
  | some (.sound version) => [line ["version", toString version]]
  | some .garbled => [line ["version"]]

/-- The lines of a database. -/
def lines
    (database : Database) :
    List String :=
  heading :: line ["sequence", toString database.sequence] ::
    line ["config", database.configHash] :: versionLines database.version ++
    database.files.map (fun entry => line ("file" :: entry.1 :: fileFields entry.2)) ++
    database.runs.map (fun entry => line ("run" :: toString entry.1.number :: runFields entry.2))

/-- Read what is remembered of a file. -/
def file? : List String → Option (Stored FileRecord)
  | [] => some .garbled
  | [hash, ruleHash, checkedAt] => do
      return .sound { hash, ruleHash, checkedAt := ← checkedAt.toInt? }
  | _ => none

/-- Read a run. -/
def run? : List String → Option (Stored RunRecord)
  | [] => some .garbled
  | [started, duration, root, dryRun, scanned, modified, cached, fixes, unresolved, failures] => do
      return .sound {
        started := ← started.toInt?
        duration := ← duration.toInt?
        root := root
        dryRun := dryRun == "true"
        scanned := ← scanned.toInt?
        modified := ← modified.toInt?
        cached := ← cached.toInt?
        fixes := ← fixes.toInt?
        unresolved := ← unresolved.toInt?
        failures := ← failures.toInt? }
  | _ => none

/-- Add what a line holds to a database. -/
def addLine?
    (database : Database) :
    List String → Option Database
  | ["sequence", number] => do
      return { database with sequence := ← number.toNat? }
  | ["config", fingerprint] =>
      some { database with configHash := fingerprint }
  | ["version"] =>
      some { database with version := some .garbled }
  | ["version", number] => do
      return { database with version := some (.sound (← number.toInt?)) }
  | "file" :: key :: fields => do
      return { database with files := database.files ++ [(key, ← file? fields)] }
  | "run" :: number :: fields => do
      let id ← number.toNat?
      return { database with runs := database.runs ++ [(RunKey.ofNumber id, ← run? fields)] }
  | _ => none

end DatabaseImage

namespace Database

/-- The image of a database. -/
def image
    (database : Database) :
    String :=
  "\n".intercalate (DatabaseImage.lines database)

/-- The database of an image. -/
def ofImage?
    (image : Text) :
    Option Database :=
  match Text.splitAt '\n' image with
  | first :: rest =>
      if String.ofList first = DatabaseImage.heading then
        rest.foldlM (fun database text =>
          DatabaseImage.addLine? database (DatabaseImage.fieldsOf text)) {}
      else
        none
  | [] => none

end Database

end ScriptUplift
