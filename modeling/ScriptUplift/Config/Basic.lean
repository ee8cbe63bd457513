import ScriptUplift.Text.Quoted

namespace ScriptUplift

/-!
# Configuration

The settings of a run, their defaults, and the values that are refused.
-/

/-- The settings of a run. -/
structure Config where
  /-- Glob patterns of the files to migrate. -/
  includes : List String := ["**/*.gd"]
  /-- Glob patterns of directory names that are left out. -/
  excludeDirs : List String :=
    [".godot", ".git", "node_modules", "exports", "temp_syntax_check",
     "syntax_fix_backup_*", "gdmigrate_backup_*", ".gdmigrate"]
  /-- Glob patterns of file names that are left out. -/
  excludeFiles : List String := ["*backup*.gd", "*_backup.gd"]
  /-- Whether the ignore file of the version control system counts. -/
  respectGitignore : Bool := false
  /-- The number of workers; zero leaves it to the machine. -/
  jobs : Int := 0
  /-- Whether the files are copied before a run changes them. -/
  backup : Bool := false
  /-- What the names of backup directories begin with. -/
  backupStem : String := "gdmigrate_backup_"
  /-- The names of the uplift rules that are switched off. -/
  disabledRules : List String := []
  indentStyle : String := "auto"
  indentWidth : Int := 4
  /-- The name of the methods that wrap orphaned statements. -/
  wrapperName : String := "_migrated_init"
  /-- Whether members are put into canonical order. -/
  canonical : Bool := true
  /-- Whether files known to be clean are skipped. -/
  cache : Bool := true
  logLevel : String := "info"
  deriving Repr, DecidableEq

/-- Why a configuration is refused. -/
inductive ConfigFault
  | indentStyle (style : String)
  | indentWidth
  | jobs
  | wrapperName (name : String)
  deriving Repr, DecidableEq

/-- The text of a refusal. -/
def ConfigFault.message : ConfigFault → String
  | .indentStyle style =>
      "indent.style must be auto, tab or space, got " ++ quotedString style
  | .indentWidth =>
      "indent.width must be positive for space indentation"
  | .jobs =>
      "migrate.jobs must not be negative"
  | .wrapperName name =>
      "orphan.wrapper_name must be a plain identifier, got " ++ quotedString name

namespace Config

/-- The settings that hold when nothing is configured. -/
def default : Config :=
  {}

/-- Whether a wrapper name can stand in a method header. -/
def isPlainName
    (name : String) :
    Bool :=
  let trimmed := Text.trim name.toList
  !trimmed.isEmpty && trimmed.all fun character =>
    character != ' ' && character != '\t' && character != '('

/-- The first reason to refuse a configuration. -/
def fault?
    (config : Config) :
    Option ConfigFault :=
  if !(["auto", "tab", "space"].contains config.indentStyle) then
    some (.indentStyle config.indentStyle)
  else if config.indentStyle = "space" && config.indentWidth ≤ 0 then
    some .indentWidth
  else if config.jobs < 0 then
    some .jobs
  else if !isPlainName config.wrapperName then
    some (.wrapperName config.wrapperName)
  else
    none

end Config

end ScriptUplift
