import ScriptUplift.Command.Session

namespace ScriptUplift

/-!
# The command that lists runs

The runs of a project, newest first, one to a line under a heading.
-/

namespace RunTable

/-- A column: its width, and whether it is aligned at its left side. -/
structure Column where
  width : Nat
  alignsLeft : Bool := false
  deriving Repr, DecidableEq

/-- A cell as wide as its column, or wider. -/
def cell
    (column : Column)
    (text : String) :
    String :=
  let blanks := String.ofList (List.replicate (column.width - text.length) ' ')
  if column.alignsLeft then text ++ blanks else blanks ++ text

/-- The columns of the table. -/
def columns : List Column :=
  [⟨5, true⟩, ⟨20, true⟩, ⟨9, false⟩, ⟨8, false⟩, ⟨8, false⟩, ⟨8, false⟩, ⟨6, false⟩,
   ⟨10, false⟩, ⟨8, false⟩]

/-- A line of the table. -/
def line
    (cells : List String) :
    String :=
  " ".intercalate (List.zipWith cell columns cells) ++ "\n"

/-- The heading of the table. -/
def heading : List String :=
  ["ID", "STARTED", "DURATION", "SCANNED", "MODIFIED", "CACHED", "FIXES", "UNRESOLVED",
   "FAILURES"]

/-- The cells of a run. -/
def cells
    (run : RunRecord) :
    List String :=
  [toString run.id, Clock.stamp (run.started.fdiv Clock.second),
   Clock.durationText run.duration, toString run.scanned, toString run.modified,
   toString run.cached, toString run.fixes, toString run.unresolved, toString run.failures]

/-- The table of runs. -/
def text
    (runs : List RunRecord) :
    String :=
  if runs.isEmpty then "No runs recorded yet.\n"
  else line heading ++ String.join (runs.map fun run => line (cells run))

end RunTable

/-- List the latest runs of a project. -/
def Session.history
    (session : Session)
    (limit : Int)
    (disk : Disk) :
    Outcome :=
  let path := Config.databasePath session.root
  match disk.find path with
  | .error .missing =>
      { disk, output := RunTable.text [] }
  | _ =>
      match Database.openFile disk path with
      | .error fault => .stopped disk (.database fault)
      | .ok (database, opened) =>
          { disk := opened, output := RunTable.text (database.listRuns limit) }

end ScriptUplift
