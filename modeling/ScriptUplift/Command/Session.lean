import ScriptUplift.Command.Fault

namespace ScriptUplift

/-!
# Sessions

What every command needs before it starts: the project directory, its
configuration and the level of the log.
-/

/-- What a command works with. -/
structure Session where
  root : String
  config : Config
  threshold : LogThreshold
  /-- The time the command was called. -/
  now : Int
  deriving Repr, DecidableEq

namespace Session

/-- The project directory. -/
def rootOf
    (options : GlobalOptions)
    (disk : Disk) :
    String :=
  if options.directory = "" then disk.workDir.path else options.directory

/-- Load the configuration that was asked for. -/
def loadConfig
    (options : GlobalOptions)
    (disk : Disk) :
    Except LoadFault Config :=
  if options.configFile = "" then Config.loadFrom disk (rootOf options disk)
  else Config.load disk options.configFile

/-- The level of the log: being quiet outranks the flag, and the flag the configuration. -/
def levelOf
    (options : GlobalOptions)
    (config : Config) :
    String :=
  if options.quiet then "warn"
  else if options.logLevel = "" then config.logLevel
  else options.logLevel

/-- Start a session. -/
def start
    (options : GlobalOptions)
    (now : Int)
    (disk : Disk) :
    Except CommandFault Session :=
  match loadConfig options disk with
  | .error fault =>
      .error (.config fault)
  | .ok config =>
      match LogThreshold.ofName (levelOf options config) with
      | .error fault => .error (.logLevel fault)
      | .ok threshold => .ok { root := rootOf options disk, config, threshold, now }

/-- The ignore files of a project. -/
def ignoreFiles
    (config : Config) :
    List String :=
  ".gdmigrateignore" :: if config.respectGitignore then [".gitignore"] else []

/-- The walker of a project; backups are never walked. -/
def walker
    (session : Session)
    (extraDirs : List String)
    (disk : Disk) :
    Except CommandFault Walker :=
  let config := session.config
  let backups := if config.backupStem = "" then [] else [config.backupStem ++ "*"]
  let base := Walker.ofGlobs config.includes (config.excludeDirs ++ extraDirs ++ backups)
    config.excludeFiles
  (base.useIgnoreFiles disk session.root (ignoreFiles config)).mapError .ignoreFiles

/-- The migrator of a project. -/
def migrator
    (session : Session)
    (extraDirs : List String)
    (collector : Collector)
    (disk : Disk) :
    Except CommandFault Migrator := do
  let walker ← session.walker extraDirs disk
  let pipeline ← (Pipeline.ofConfig session.config).mapError .unknownRule
  return {
    pipeline := pipeline.onMachine
    walker := walker
    writer := FileWriter.atomic
    ruleHash := session.config.fingerprint
    now := session.now
    collector := collector }

/-- The events that the log of a session shows. -/
def shown
    (session : Session)
    (events : List LogEvent) :
    List LogEvent :=
  events.filter fun event => session.threshold.shows event.level

end Session

end ScriptUplift
