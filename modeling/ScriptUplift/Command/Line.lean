import ScriptUplift.Command.Flag
import ScriptUplift.Command.Suggestion

namespace ScriptUplift

/-!
# The command line

The first word that is neither a flag nor the value of one names the command; the
flags of all commands may stand before it.  What cannot be read is refused before
anything is done.
-/

/-- The commands of the program. -/
inductive Verb
  | check
  | history
  | initConfig
  | migrate
  deriving Repr, DecidableEq

/-- The name of the program. -/
def programName : String :=
  "gdmigrate"

namespace Verb

/-- Every command. -/
def all : List Verb :=
  [.check, .history, .initConfig, .migrate]

/-- The word for a command. -/
def name : Verb → String
  | .check => "check"
  | .history => "history"
  | .initConfig => "init-config"
  | .migrate => "migrate"

/-- Whether a command is about the files it is given. -/
def takesFiles : Verb → Bool
  | .check => true
  | .history => false
  | .initConfig => false
  | .migrate => true

/-- The flags of a command alone. -/
def ownFlags : Verb → List Flag
  | .check =>
      [⟨"format", none, .text⟩, ⟨"min-severity", none, .text⟩]
  | .history =>
      [⟨"limit", some 'n', .number⟩]
  | .initConfig =>
      [⟨"force", none, .switch⟩]
  | .migrate =>
      [⟨"dry-run", none, .switch⟩, ⟨"backup", none, .switch⟩, ⟨"exclude-dir", none, .text⟩,
       ⟨"jobs", some 'j', .number⟩, ⟨"no-cache", none, .switch⟩, ⟨"diff", none, .switch⟩]

end Verb

/-- What can be said to every command. -/
structure GlobalOptions where
  /-- The configuration file, if it is not the one of the project. -/
  configFile : String := ""
  /-- The project directory, if it is not the working directory. -/
  directory : String := ""
  logLevel : String := ""
  quiet : Bool := false
  deriving Repr, DecidableEq

/-- What can be said to the command that migrates. -/
structure MigrateFlags where
  dryRun : Bool := false
  backup : Option Bool := none
  excludeDirs : List String := []
  jobs : Option Int := none
  noCache : Bool := false
  diff : Bool := false
  deriving Repr, DecidableEq

/-- What can be said to the command that checks. -/
structure CheckFlags where
  format : String := "text"
  minSeverity : String := "info"
  deriving Repr, DecidableEq

/-- A command with all that was said to it. -/
inductive Command
  | migrate (flags : MigrateFlags) (files : List String)
  | check (flags : CheckFlags) (files : List String)
  | history (limit : Int)
  | initConfig (force : Bool)
  deriving Repr, DecidableEq

/-- What a command line asks for. -/
inductive Request
  | help
  | perform (options : GlobalOptions) (command : Command)
  deriving Repr, DecidableEq

/-- Why a command line is refused. -/
inductive UsageFault
  | unknownCommand (word : String)
  /-- A command without operands got one. -/
  | unexpected (verb : Verb) (word : String)
  | flags (fault : FlagFault)
  deriving Repr, DecidableEq

namespace CommandLine

/-- The flags of every command. -/
def globalFlags : List Flag :=
  [⟨"config", none, .text⟩, ⟨"dir", some 'd', .text⟩, ⟨"log-level", none, .text⟩,
   ⟨"quiet", some 'q', .switch⟩]

/-- The flag that asks for help. -/
def helpFlag : Flag :=
  ⟨"help", some 'h', .switch⟩

/-- The words that ask for help instead of a command. -/
def helpWords : List String :=
  ["help", "completion"]

/-- The words that are suggested for an unknown command. -/
def suggestedWords : List String :=
  Verb.all.map Verb.name ++ ["completion"]

/-- Whether the next argument belongs to a flag; unknown flags are taken to have a value. -/
def usesNext
    (argument : String) :
    Bool :=
  let switches := fun (flag : Option Flag) => flag.any (·.kind == .switch)
  !argument.toList.contains '=' &&
    match argument.toList with
    | '-' :: '-' :: name => !switches (Flag.named? globalFlags (String.ofList name))
    | ['-', letter] =>
        letter.utf8Size = 1 && !switches (Flag.lettered? globalFlags letter)
    | _ => false

/-- Whether an argument is neither a flag nor empty. -/
def isWord
    (argument : String) :
    Bool :=
  match argument.toList with
  | [] => false
  | '-' :: _ => false
  | _ => true

/-- The first word, unless the flags before it leave too little behind for their values. -/
def firstWord? : List String → Option String
  | [] =>
      none
  | argument :: rest =>
      if argument = "--" then
        none
      else if usesNext argument then
        match rest with
        | _ :: second :: others => firstWord? (second :: others)
        | _ => none
      else if isWord argument then
        some argument
      else
        firstWord? rest

/-- The arguments without the first word of the given spelling. -/
def withoutWord
    (word : String) :
    List String → List String
  | [] =>
      []
  | argument :: rest =>
      if argument = "--" then
        argument :: rest
      else if usesNext argument then
        match rest with
        | value :: others => argument :: value :: withoutWord word others
        | [] => [argument]
      else if argument = word then
        rest
      else
        argument :: withoutWord word rest

/-- What was said to every command. -/
def globalOptions
    (parsed : ParsedFlags) :
    GlobalOptions where
  configFile := (parsed.text? "config").getD ""
  directory := (parsed.text? "dir").getD ""
  logLevel := (parsed.text? "log-level").getD ""
  quiet := parsed.isOn "quiet"

/-- The command of a verb and what was said to it. -/
def commandOf
    (parsed : ParsedFlags) :
    Verb → Command
  | .migrate =>
      .migrate
        { dryRun := parsed.isOn "dry-run"
          backup := parsed.switch? "backup"
          excludeDirs := parsed.texts "exclude-dir"
          jobs := parsed.number? "jobs"
          noCache := parsed.isOn "no-cache"
          diff := parsed.isOn "diff" }
        parsed.operands
  | .check =>
      .check
        { format := (parsed.text? "format").getD "text"
          minSeverity := (parsed.text? "min-severity").getD "info" }
        parsed.operands
  | .history =>
      .history ((parsed.number? "limit").getD 10)
  | .initConfig =>
      .initConfig (parsed.isOn "force")

/-- Read the arguments of a command. -/
def readCommand
    (verb : Verb)
    (arguments : List String) :
    Except UsageFault Request :=
  match ParsedFlags.read (verb.ownFlags ++ globalFlags ++ [helpFlag]) arguments with
  | .error fault =>
      .error (.flags fault)
  | .ok parsed =>
      if parsed.isOn "help" then
        .ok .help
      else
        match verb.takesFiles, parsed.operands with
        | false, word :: _ => .error (.unexpected verb word)
        | _, _ => .ok (.perform (globalOptions parsed) (commandOf parsed verb))

/-- Read the arguments of the program when they name no command. -/
def readBare
    (arguments : List String) :
    Except UsageFault Request :=
  match ParsedFlags.read (globalFlags ++ [helpFlag]) arguments with
  | .error fault => .error (.flags fault)
  | .ok _ => .ok .help

/-- Read the arguments of the program. -/
def read
    (arguments : List String) :
    Except UsageFault Request :=
  match firstWord? arguments with
  | none =>
      readBare arguments
  | some word =>
      match Verb.all.find? (·.name == word) with
      | some verb => readCommand verb (withoutWord word arguments)
      | none =>
          if helpWords.contains word then .ok .help else .error (.unknownCommand word)

end CommandLine

namespace UsageFault

/-- The part of a message that suggests words. -/
def suggestionText
    (words : List String) :
    String :=
  if words.isEmpty then ""
  else "\n\nDid you mean this?\n" ++ String.join (words.map fun word => "\t" ++ word ++ "\n")

/-- The text about a command line that is refused. -/
def message : UsageFault → String
  | .unknownCommand word =>
      "unknown command " ++ quotedString word ++ " for " ++ quotedString programName ++
        suggestionText (Suggestion.among CommandLine.suggestedWords word)
  | .unexpected verb word =>
      "unknown command " ++ quotedString word ++ " for " ++
        quotedString (programName ++ " " ++ verb.name)
  | .flags fault =>
      fault.message

end UsageFault

end ScriptUplift
