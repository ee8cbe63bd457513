import ScriptUplift.Diagnostics.Record
import ScriptUplift.Text.Color

namespace ScriptUplift

/-!
# Printing records

Records are printed one to a line, or all together as a JSON document.
-/

namespace Record

/-- How the name of a severity is set off. -/
def paintOf : Severity → Paint
  | .info => .cyan
  | .warning => .yellowBold
  | .error => .redBold

/-- A record on a line of its own. -/
def text
    (colored : Bool)
    (record : Record) :
    String :=
  Paint.faint.apply colored (record.file ++ ":" ++ toString record.line ++ ":") ++ " " ++
    (paintOf record.severity).apply colored record.severity.name ++ " " ++
    record.code ++ ": " ++ record.message ++ "\n"

end Record

namespace Document

/-- The characters of a JSON string that have an escape of their own. -/
def shortEscapes : List (Char × Char) :=
  [('"', '"'), ('\\', '\\'), ('\x08', 'b'), ('\x0c', 'f'), ('\n', 'n'), ('\r', 'r'),
   ('\t', 't')]

/-- Whether a character is written by its code point, so that the document can stand in a page. -/
def needsCode
    (character : Char) :
    Bool :=
  character.toNat < 0x20 || character == '<' || character == '>' || character == '&' ||
    character == '\u2028' || character == '\u2029'

/-- One character of a JSON string. -/
def escape
    (character : Char) :
    Text :=
  match shortEscapes.lookup character with
  | some letter =>
      ['\\', letter]
  | none =>
      if needsCode character then
        '\\' :: 'u' :: Quoted.hexadecimal 4 character.toNat
      else
        [character]

/-- A JSON string. -/
def string
    (text : String) :
    String :=
  "\"" ++ String.ofList (text.toList.flatMap escape) ++ "\""

/-- A record as a member of the list. -/
def record
    (record : Record) :
    String :=
  "    \x7b\n" ++
    "      \"file\": " ++ string record.file ++ ",\n" ++
    "      \"line\": " ++ toString record.line ++ ",\n" ++
    "      \"severity\": " ++ string record.severity.name ++ ",\n" ++
    "      \"code\": " ++ string record.code ++ ",\n" ++
    "      \"message\": " ++ string record.message ++ "\n" ++
    "    \x7d"

/-- The list of records. -/
def recordList
    (records : List Record) :
    String :=
  if records.isEmpty then "[]"
  else "[\n" ++ ",\n".intercalate (records.map record) ++ "\n  ]"

/-- The number of records of a severity. -/
def countText
    (records : List Record)
    (severity : Severity) :
    String :=
  "    " ++ string severity.name ++ ": " ++
    toString (records.countP (·.severity == severity))

/-- All records and their number by severity. -/
def text
    (records : List Record) :
    String :=
  "\x7b\n  \"records\": " ++ recordList records ++ ",\n  \"counts\": \x7b\n" ++
    ",\n".intercalate ([.error, .info, .warning].map (countText records)) ++
    "\n  \x7d\n\x7d\n"

end Document

end ScriptUplift
