import ScriptUplift.Config.Basic
import ScriptUplift.Yaml.Reader
import ScriptUplift.Yaml.Writer

namespace ScriptUplift

/-!
# Configuration files

A configuration file is a mapping of sections, each of them a mapping of
settings.  Sections and settings that are missing keep their defaults, and so do
those that stand for nothing; unknown ones are passed over.  A setting of the
wrong kind, or one that is given twice, makes the file unreadable.
-/

namespace Setting

/-- Read a text: any scalar will do. -/
def text?
    (default : String)
    (node : YamlNode) :
    Option String :=
  match node, node.value? with
  | _, some .nothing => some default
  | .scalar text _ _, some _ => some (String.ofList text)
  | _, _ => none

/-- The whole part of a number as an integer of sixty-four bits. -/
def whole?
    (value : Float) :
    Option Int :=
  if value ≤ 9223372036854775808.0 then
    some (if 9223372036854775808.0 ≤ value then -Numeral.wordBound else value.toInt64.toInt)
  else
    none

/-- Read an integer; other numbers are cut off. -/
def integer?
    (default : Int)
    (node : YamlNode) :
    Option Int :=
  match node.value? with
  | some .nothing => some default
  | some (.integer value) => if value < Numeral.wordBound then some value else none
  | some (.real value) => whole? value
  | _ => none

/-- The words for truth values besides the usual ones. -/
def flagWords : List (String × Bool) :=
  [("y", true), ("Y", true), ("yes", true), ("on", true),
   ("n", false), ("N", false), ("no", false), ("off", false)]

/-- Read a truth value. -/
def flag?
    (default : Bool)
    (node : YamlNode) :
    Option Bool :=
  match node, node.value? with
  | _, some .nothing => some default
  | _, some (.flag value) => some value
  | .scalar text _ _, some .text => flagWords.lookup (String.ofList text)
  | _, _ => none

/-- Read the items of a list; those that stand for nothing are left out. -/
def items? : List YamlNode → Option (List String)
  | [] =>
      some []
  | node :: rest =>
      match node, node.value?, items? rest with
      | _, some .nothing, others => others
      | .scalar text _ _, some _, some others => some (String.ofList text :: others)
      | _, _, _ => none

/-- Read a list of texts; nothing stands for the empty list. -/
def texts? : YamlNode → Option (List String)
  | .sequence items => items? items
  | node =>
      match node.value? with
      | some .nothing => some []
      | _ => none

/-- Whether two keys are told apart. -/
def sameKey : YamlNode → YamlNode → Bool
  | .scalar first _ _, .scalar second _ _ => first == second
  | .sequence _, .sequence _ => true
  | .mapping _, .mapping _ => true
  | _, _ => false

/-- Whether a key is given twice. -/
def repeatsKey : List (YamlNode × YamlNode) → Bool
  | [] => false
  | pair :: rest => rest.any (fun other => sameKey pair.1 other.1) || repeatsKey rest

/-- The named fields of a mapping; a key that stands for nothing names none. -/
def named? : List (YamlNode × YamlNode) → Option (List (String × YamlNode))
  | [] =>
      some []
  | (key, value) :: rest =>
      match key, key.value?, named? rest with
      | _, some .nothing, others => others
      | .scalar text _ _, some _, some others =>
          some (if key.isMergeKey then others else (String.ofList text, value) :: others)
      | _, _, _ => none

mutual

/-- The fields of a mapping, its own before the ones it merges. -/
def mappingFields? : YamlNode → Option (List (String × YamlNode))
  | .mapping pairs =>
      if repeatsKey pairs then none
      else
        match named? pairs, mergedFields? pairs with
        | some own, some merged => some (own ++ merged)
        | _, _ => none
  | _ =>
      none

/-- The fields of the mappings that are merged into one. -/
def mergedFields? : List (YamlNode × YamlNode) → Option (List (String × YamlNode))
  | [] =>
      some []
  | (key, value) :: rest =>
      if key.isMergeKey then
        match value with
        | .sequence items => itemFields? items
        | node => mappingFields? node
      else
        mergedFields? rest

/-- The fields of mappings one after another. -/
def itemFields? : List YamlNode → Option (List (String × YamlNode))
  | [] =>
      some []
  | item :: rest =>
      match mappingFields? item, itemFields? rest with
      | some first, some others => some (first ++ others)
      | _, _ => none

end

/-- The fields of a section. -/
def fields?
    (node : YamlNode) :
    Option (List (String × YamlNode)) :=
  match node with
  | .mapping _ => mappingFields? node
  | _ =>
      match node.value? with
      | some .nothing => some []
      | _ => none

/-- Read a field, or take its default. -/
def field?
    {α : Type}
    (fields : List (String × YamlNode))
    (name : String)
    (default : α)
    (read : YamlNode → Option α) :
    Option α :=
  match fields.lookup name with
  | some node => read node
  | none => some default

end Setting

namespace Config

open Setting

/-- Read a configuration from a document. -/
def ofNode?
    (node : YamlNode) :
    Option Config := do
  let base := Config.default
  let sections ← fields? node
  let sectionOf := fun name => field? sections name [] fields?
  let migrate ← sectionOf "migrate"
  let rules ← sectionOf "rules"
  let indent ← sectionOf "indent"
  let orphan ← sectionOf "orphan"
  let canonical ← sectionOf "canonical"
  let cache ← sectionOf "cache"
  let logging ← sectionOf "logging"
  let text := fun fields name default => field? fields name default (text? default)
  let integer := fun fields name default => field? fields name default (integer? default)
  let flag := fun fields name default => field? fields name default (flag? default)
  return {
    includes := ← field? migrate "includes" base.includes texts?
    excludeDirs := ← field? migrate "exclude_dirs" base.excludeDirs texts?
    excludeFiles := ← field? migrate "exclude_files" base.excludeFiles texts?
    respectGitignore := ← flag migrate "respect_gitignore" base.respectGitignore
    jobs := ← integer migrate "jobs" base.jobs
    backup := ← flag migrate "backup" base.backup
    backupStem := ← text migrate "backup_prefix" base.backupStem
    disabledRules := ← field? rules "disabled" base.disabledRules texts?
    indentStyle := ← text indent "style" base.indentStyle
    indentWidth := ← integer indent "width" base.indentWidth
    wrapperName := ← text orphan "wrapper_name" base.wrapperName
    canonical := ← flag canonical "enabled" base.canonical
    cache := ← flag cache "enabled" base.cache
    logLevel := ← text logging "level" base.logLevel }

/-- Read a configuration from the text of a file. -/
def ofText?
    (text : Text) :
    Option Config :=
  (Yaml.parse? text).bind ofNode?

/-- A line of a section. -/
def settingLine
    (name : String)
    (value : Text) :
    Text :=
  List.replicate Yaml.indentWidth ' ' ++ name.toList ++ ": ".toList ++ value ++ ['\n']

/-- A setting that holds a text. -/
def textLine
    (name value : String) :
    Text :=
  settingLine name (Yaml.scalarText (2 * Yaml.indentWidth) value.toList)

/-- A setting that holds a list, one item to a line. -/
def listLines
    (name : String)
    (values : List String) :
    Text :=
  if values.isEmpty then
    settingLine name "[]".toList
  else
    List.replicate Yaml.indentWidth ' ' ++ name.toList ++ ":\n".toList ++
      values.flatMap fun value =>
        List.replicate (2 * Yaml.indentWidth) ' ' ++ "- ".toList ++
          Yaml.scalarText (2 * Yaml.indentWidth + 2) value.toList ++ ['\n']

/-- A section with its settings. -/
def sectionLines
    (name : String)
    (settings : List Text) :
    Text :=
  name.toList ++ ":\n".toList ++ settings.flatten

/-- A configuration as the text of a file. -/
def toText
    (config : Config) :
    Text :=
  let flagLine := fun (name : String) (value : Bool) => settingLine name (toString value).toList
  let integerLine := fun (name : String) (value : Int) => settingLine name (toString value).toList
  sectionLines "migrate"
      [listLines "includes" config.includes,
       listLines "exclude_dirs" config.excludeDirs,
       listLines "exclude_files" config.excludeFiles,
       flagLine "respect_gitignore" config.respectGitignore,
       integerLine "jobs" config.jobs,
       flagLine "backup" config.backup,
       textLine "backup_prefix" config.backupStem] ++
    sectionLines "rules" [listLines "disabled" config.disabledRules] ++
    sectionLines "indent"
      [textLine "style" config.indentStyle, integerLine "width" config.indentWidth] ++
    sectionLines "orphan" [textLine "wrapper_name" config.wrapperName] ++
    sectionLines "canonical" [flagLine "enabled" config.canonical] ++
    sectionLines "cache" [flagLine "enabled" config.cache] ++
    sectionLines "logging" [textLine "level" config.logLevel]

end Config

end ScriptUplift
