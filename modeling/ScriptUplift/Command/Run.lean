import ScriptUplift.Command.Check
import ScriptUplift.Command.History
import ScriptUplift.Command.Migrate

namespace ScriptUplift

/-!
# Running the program

The arguments are read, a session is started and the command does its work.
Nothing is printed about a command that fails but the reason.
-/

/-- Write the default configuration of a project. -/
def Session.initConfig
    (session : Session)
    (force : Bool)
    (disk : Disk) :
    Outcome :=
  let path := Config.filePath session.root
  if disk.exists? path && !force then
    .stopped disk (.configExists path)
  else
    match disk.write path (.text Config.default.toText) Disk.defaultMode with
    | .error fault => .stopped disk (.configWrite fault)
    | .ok written => { disk := written, output := "Wrote " ++ path ++ "\n" }

/-- Do the work of a command. -/
def Session.perform
    (session : Session)
    (disk : Disk) :
    Command → Outcome
  | .migrate flags files => session.migrate flags files disk
  | .check flags files => session.check flags files disk
  | .history limit => session.history limit disk
  | .initConfig force => session.initConfig force disk

/-- A short account of the commands. -/
def usageText : String :=
  "Usage:\n  " ++ programName ++ " [command] [flags] [files...]\n\nCommands:\n" ++
    String.join (Verb.all.map fun verb => "  " ++ verb.name ++ "\n")

/-- Run the program. -/
def runProgram
    (arguments : List String)
    (now : Int)
    (disk : Disk) :
    Outcome :=
  match CommandLine.read arguments with
  | .error fault =>
      .stopped disk (.usage fault)
  | .ok .help =>
      { disk, output := usageText }
  | .ok (.perform options command) =>
      match Session.start options now disk with
      | .error fault => .stopped disk fault
      | .ok session => session.perform disk command

end ScriptUplift
