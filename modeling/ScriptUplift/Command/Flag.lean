import ScriptUplift.Text.Integer
import ScriptUplift.Text.Quoted

namespace ScriptUplift

/-!
# Flags

A flag is given by its name after two dashes or by its letter after one.  A value
follows after an equals sign or as the next argument; a switch stands alone or
has its value after an equals sign.  Letters can be grouped behind one dash, and
what follows the letter of a flag that takes a value is that value.

Two dashes alone end the flags.  Everything that is no flag is an operand, also
between flags.
-/

/-- What a flag takes. -/
inductive FlagKind
  /-- Nothing, or a truth value. -/
  | switch
  | text
  | number
  deriving Repr, DecidableEq

/-- A flag that can be given. -/
structure Flag where
  name : String
  letter : Option Char := none
  kind : FlagKind
  deriving Repr, DecidableEq

/-- What a flag was given. -/
inductive FlagValue
  | switch (on : Bool)
  | text (value : String)
  | number (value : Int)
  deriving Repr, DecidableEq

/-- A flag as it was given. -/
structure FlagSetting where
  name : String
  value : FlagValue
  deriving Repr, DecidableEq

/-- Why a value does not suit a flag. -/
inductive FlagValueFault
  | notSwitch
  | notNumber (fault : Numeral.IntegerFault)
  deriving Repr, DecidableEq

/-- Why arguments cannot be read. -/
inductive FlagFault
  | malformed (argument : String)
  | unknown (name : String)
  | unknownLetter (group : String)
  | valueMissing (argument : String)
  | letterValueMissing (group : String)
  | invalid (flag : Flag) (value : String) (fault : FlagValueFault)
  deriving Repr, DecidableEq

/-- The text about a value that does not suit a flag. -/
def FlagValueFault.message
    (value : String) :
    FlagValueFault → String
  | .notSwitch =>
      "strconv.ParseBool: parsing " ++ quotedString value ++ ": invalid syntax"
  | .notNumber .malformed =>
      "strconv.ParseInt: parsing " ++ quotedString value ++ ": invalid syntax"
  | .notNumber .outOfRange =>
      "strconv.ParseInt: parsing " ++ quotedString value ++ ": value out of range"

/-- A flag as messages name it. -/
def Flag.label
    (flag : Flag) :
    String :=
  match flag.letter with
  | some letter => "-" ++ String.singleton letter ++ ", --" ++ flag.name
  | none => "--" ++ flag.name

namespace FlagFault

/-- The letter of a group that a message shows: its first byte as a character. -/
def shownLetter
    (group : String) :
    Char :=
  match Text.utf8 group.toList with
  | byte :: _ => Char.ofNat byte.toNat
  | [] => ' '

/-- The text about arguments that cannot be read. -/
def message : FlagFault → String
  | .malformed argument =>
      "bad flag syntax: " ++ argument
  | .unknown name =>
      "unknown flag: --" ++ name
  | .unknownLetter group =>
      "unknown shorthand flag: " ++ quotedChar (shownLetter group) ++ " in -" ++ group
  | .valueMissing argument =>
      "flag needs an argument: " ++ argument
  | .letterValueMissing group =>
      "flag needs an argument: " ++ quotedChar (shownLetter group) ++ " in -" ++ group
  | .invalid flag value fault =>
      "invalid argument " ++ quotedString value ++ " for " ++ quotedString flag.label ++
        " flag: " ++ fault.message value

end FlagFault

namespace Flag

/-- The texts of truth values. -/
def switchTexts : List (String × Bool) :=
  [("1", true), ("t", true), ("T", true), ("TRUE", true), ("true", true), ("True", true),
   ("0", false), ("f", false), ("F", false), ("FALSE", false), ("false", false),
   ("False", false)]

/-- Read the value of a flag. -/
def value
    (flag : Flag)
    (text : String) :
    Except FlagFault FlagValue :=
  match flag.kind with
  | .text =>
      .ok (.text text)
  | .switch =>
      match switchTexts.lookup text with
      | some on => .ok (.switch on)
      | none => .error (.invalid flag text .notSwitch)
  | .number =>
      match Numeral.word text.toList with
      | .ok number => .ok (.number number)
      | .error fault => .error (.invalid flag text (.notNumber fault))

/-- Give a flag a value. -/
def set
    (flag : Flag)
    (text : String) :
    Except FlagFault FlagSetting :=
  (flag.value text).map fun value => ⟨flag.name, value⟩

/-- The flag of a name. -/
def named?
    (flags : List Flag)
    (name : String) :
    Option Flag :=
  flags.find? (·.name == name)

/-- The flag of a letter. -/
def lettered?
    (flags : List Flag)
    (letter : Char) :
    Option Flag :=
  flags.find? (·.letter == some letter)

/-- What an argument sets, and whether the next argument was its value. -/
structure Reading where
  settings : List FlagSetting := []
  usesNext : Bool := false
  deriving Repr, DecidableEq

/-- Read the value of a flag that has no more text in its own argument. -/
def withNext
    (flag : Flag)
    (next : Option String)
    (missing : FlagFault) :
    Except FlagFault Reading :=
  match next with
  | some text => (flag.set text).map fun setting => ⟨[setting], true⟩
  | none => .error missing

/-- Split a text at its first equals sign. -/
def splitValue
    (text : Text) :
    Text × Option Text :=
  match text.dropWhile (· != '=') with
  | _ :: value => (text.takeWhile (· != '='), some value)
  | [] => (text, none)

/-- Read an argument that gives a flag by its name, without the dashes. -/
def readName
    (flags : List Flag)
    (body : Text)
    (next : Option String) :
    Except FlagFault Reading :=
  let argument := "--" ++ String.ofList body
  if body.isEmpty || body.head? == some '-' || body.head? == some '=' then
    .error (.malformed argument)
  else
    let (name, value) := splitValue body
    match named? flags (String.ofList name), value with
    | none, _ =>
        .error (.unknown (String.ofList name))
    | some flag, some value =>
        (flag.set (String.ofList value)).map fun setting => ⟨[setting], false⟩
    | some flag, none =>
        if flag.kind = .switch then
          (flag.set "true").map fun setting => ⟨[setting], false⟩
        else
          withNext flag next (.valueMissing argument)

/-- Read a group of letters, without the dash. -/
def readLetters
    (flags : List Flag)
    (next : Option String) :
    Text → Except FlagFault Reading
  | [] =>
      .ok {}
  | letter :: rest =>
      let group := String.ofList (letter :: rest)
      match lettered? flags letter, rest with
      | none, _ =>
          .error (.unknownLetter group)
      | some flag, '=' :: first :: others =>
          (flag.set (String.ofList (first :: others))).map fun setting => ⟨[setting], false⟩
      | some flag, _ =>
          if flag.kind = .switch then
            match flag.set "true", readLetters flags next rest with
            | .ok setting, .ok reading =>
                .ok { reading with settings := setting :: reading.settings }
            | .error fault, _ => .error fault
            | _, .error fault => .error fault
          else if rest.isEmpty then
            withNext flag next (.letterValueMissing group)
          else
            (flag.set (String.ofList rest)).map fun setting => ⟨[setting], false⟩

end Flag

/-- Arguments that were read: what was set, in order, and the operands. -/
structure ParsedFlags where
  settings : List FlagSetting := []
  operands : List String := []
  deriving Repr, DecidableEq

namespace ParsedFlags

/-- An argument by its form. -/
inductive Form
  | operand
  /-- Two dashes alone. -/
  | stop
  | name (body : Text)
  | letters (body : Text)
  deriving Repr, DecidableEq

/-- The form of an argument. -/
def formOf
    (argument : String) :
    Form :=
  match argument.toList with
  | ['-', '-'] => .stop
  | '-' :: '-' :: body => .name body
  | '-' :: first :: body => .letters (first :: body)
  | _ => .operand

/-- Put what an argument sets before what the later ones set. -/
def prepend
    (settings : List FlagSetting)
    (later : ParsedFlags) :
    ParsedFlags :=
  { later with settings := settings ++ later.settings }

/-- Read arguments. -/
def read
    (flags : List Flag) :
    List String → Except FlagFault ParsedFlags
  | [] =>
      .ok {}
  | argument :: rest =>
      let reading :=
        match formOf argument with
        | .name body => Flag.readName flags body rest.head?
        | .letters body => Flag.readLetters flags rest.head? body
        | _ => .ok {}
      match formOf argument, reading with
      | .stop, _ =>
          .ok { operands := rest }
      | .operand, _ =>
          (read flags rest).map fun later => { later with operands := argument :: later.operands }
      | _, .error fault =>
          .error fault
      | _, .ok reading =>
          match reading.usesNext, rest with
          | true, _ :: others => (read flags others).map (prepend reading.settings)
          | _, others => (read flags others).map (prepend reading.settings)

/-- What a flag was given last. -/
def last?
    (parsed : ParsedFlags)
    (name : String) :
    Option FlagValue :=
  (parsed.settings.reverse.find? (·.name == name)).map (·.value)

/-- The switch of a name, if it was given. -/
def switch?
    (parsed : ParsedFlags)
    (name : String) :
    Option Bool :=
  match parsed.last? name with
  | some (.switch on) => some on
  | _ => none

/-- Whether a switch is on. -/
def isOn
    (parsed : ParsedFlags)
    (name : String) :
    Bool :=
  (parsed.switch? name).getD false

/-- The number of a flag, if it was given. -/
def number?
    (parsed : ParsedFlags)
    (name : String) :
    Option Int :=
  match parsed.last? name with
  | some (.number value) => some value
  | _ => none

/-- The text of a flag, if it was given. -/
def text?
    (parsed : ParsedFlags)
    (name : String) :
    Option String :=
  match parsed.last? name with
  | some (.text value) => some value
  | _ => none

/-- All the texts of a flag that can be given more than once. -/
def texts
    (parsed : ParsedFlags)
    (name : String) :
    List String :=
  parsed.settings.filterMap fun setting =>
    match setting.value with
    | .text value => if setting.name = name then some value else none
    | _ => none

end ParsedFlags

end ScriptUplift
