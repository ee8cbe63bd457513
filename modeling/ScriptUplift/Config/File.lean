import ScriptUplift.Config.Document
import ScriptUplift.Disk.Basic

namespace ScriptUplift

/-!
# The configuration of a project

A project is configured by a file in its directory or in its directory of state.
Without one the defaults hold.
-/

/-- Why a configuration cannot be used. -/
inductive LoadFault
  | unreadable (fault : DiskFault)
  /-- The file is not a configuration. -/
  | malformed
  | invalid (fault : ConfigFault)
  deriving Repr, DecidableEq

/-- The text about a configuration that cannot be used. -/
def LoadFault.message : LoadFault → String
  | .unreadable fault => fault.message
  | .malformed => "yaml: not a configuration"
  | .invalid fault => fault.message

namespace Config

/-- The directory that holds the state of a project. -/
def stateDir : String :=
  ".gdmigrate"

/-- The name of the configuration file of a project. -/
def fileName : String :=
  "gdmigrate.yaml"

/-- The path of the configuration file of a project. -/
def filePath
    (directory : String) :
    String :=
  Path.join directory fileName

/-- The path of the state directory of a project. -/
def stateDirPath
    (directory : String) :
    String :=
  Path.join directory stateDir

/-- The path of the state database of a project. -/
def databasePath
    (directory : String) :
    String :=
  Path.join (stateDirPath directory) "state.db"

/-- The configuration of the content of a file. -/
def ofContent
    (content : Content) :
    Except LoadFault Config :=
  let read :=
    match content with
    | .text text => ofText? text
    | _ => none
  match read with
  | none => .error .malformed
  | some config =>
      match config.fault? with
      | some fault => .error (.invalid fault)
      | none => .ok config

/-- Load the configuration at a path; a missing file stands for the defaults. -/
def load
    (disk : Disk)
    (path : String) :
    Except LoadFault Config :=
  match disk.read path with
  | .ok content => ofContent content
  | .error fault => if fault.cause = .missing then .ok default else .error (.unreadable fault)

/-- Load the configuration of a project. -/
def loadFrom
    (disk : Disk)
    (directory : String) :
    Except LoadFault Config :=
  let first := filePath directory
  let second := Path.join (stateDirPath directory) "config.yaml"
  if disk.exists? first then load disk first
  else if disk.exists? second then load disk second
  else .ok default

end Config

end ScriptUplift
