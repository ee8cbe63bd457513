import ScriptUplift.Command.Line
import ScriptUplift.Config.File
import ScriptUplift.Log
import ScriptUplift.Project.Migration
import ScriptUplift.State.File

namespace ScriptUplift

/-!
# What stops a command

Each cause has its text and the code the program ends with.
-/

/-- Why a command does not do its work. -/
inductive CommandFault
  | usage (fault : UsageFault)
  | config (fault : LoadFault)
  | logLevel (fault : LogThresholdFault)
  /-- The flags turned the configuration into one that is refused. -/
  | settings (fault : ConfigFault)
  | rootMissing (root : String)
  | ignoreFiles (fault : DiskFault)
  | unknownRule (fault : UnknownRule)
  | stateDirectory (fault : DiskFault)
  | database (fault : OpenFault)
  | format (name : String)
  | severity (fault : Severity.Unknown)
  /-- The run itself stopped. -/
  | run (fault : Fault)
  | configExists (path : String)
  | configWrite (fault : DiskFault)
  deriving Repr, DecidableEq

namespace CommandFault

/-- The text about a command that was stopped. -/
def message : CommandFault → String
  | .usage fault => fault.message
  | .config fault => "failed to load config: " ++ fault.message
  | .logLevel fault => fault.message
  | .settings fault => fault.message
  | .rootMissing root => "project root is not a directory: " ++ root
  | .ignoreFiles fault => "failed to read ignore files: " ++ fault.message
  | .unknownRule fault => fault.message
  | .stateDirectory fault => "failed to create state directory: " ++ fault.message
  | .database fault => fault.message
  | .format name => "unknown format " ++ quotedString name
  | .severity fault => fault.message
  | .run fault => fault.message
  | .configExists path => path ++ " already exists (use --force to overwrite)"
  | .configWrite fault => "failed to write config: " ++ fault.message

/-- The code a stopped command ends with. -/
def code : CommandFault → ExitCode
  | .stateDirectory _ => .inputOutput
  | .database _ => .inputOutput
  | .configWrite _ => .inputOutput
  | .run fault => ExitCode.ofFault fault
  | _ => .contract

end CommandFault

/-- What a command leaves behind. -/
structure Outcome where
  disk : Disk
  /-- What it printed. -/
  output : String := ""
  log : List LogEvent := []
  code : ExitCode := .ok
  fault : Option CommandFault := none

namespace Outcome

/-- The outcome of a command that was stopped. -/
def stopped
    (disk : Disk)
    (fault : CommandFault) :
    Outcome where
  disk := disk
  code := fault.code
  fault := some fault

/-- What is told about the fault, if there is one. -/
def errorText
    (outcome : Outcome) :
    String :=
  match outcome.fault with
  | some fault => "Error: " ++ fault.message ++ "\n"
  | none => ""

end Outcome

end ScriptUplift
