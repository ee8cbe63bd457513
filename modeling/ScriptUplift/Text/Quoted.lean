import ScriptUplift.Text.Basic
import ScriptUplift.Text.Printable

namespace ScriptUplift

/-!
# Quoted texts

Messages show a name between double quotation marks.  Printable characters stand
for themselves; the quotation mark and the backslash get a backslash, some
control characters a letter, and every other character its code point.
-/

namespace Quoted

/-- A lower-case hexadecimal numeral with at least the given number of digits. -/
def hexadecimal
    (width number : Nat) :
    Text :=
  let digits := Nat.toDigits 16 number
  List.replicate (width - digits.length) '0' ++ digits

/-- The control characters that are written with a letter. -/
def letters : List (Char × Char) :=
  [('\x07', 'a'), ('\x08', 'b'), ('\x0c', 'f'), ('\n', 'n'), ('\r', 'r'), ('\t', 't'),
   ('\x0b', 'v')]

/-- One character of a quoted text. -/
def escape
    (character : Char) :
    Text :=
  if character == '"' || character == '\\' then
    ['\\', character]
  else if isPrintable character then
    [character]
  else
    match letters.lookup character with
    | some letter =>
        ['\\', letter]
    | none =>
        if character.toNat < 0x80 then
          '\\' :: 'x' :: hexadecimal 2 character.toNat
        else if character.toNat < 0x10000 then
          '\\' :: 'u' :: hexadecimal 4 character.toNat
        else
          '\\' :: 'U' :: hexadecimal 8 character.toNat

end Quoted

/-- A text between double quotation marks. -/
def Text.quoted
    (text : Text) :
    Text :=
  '"' :: text.flatMap Quoted.escape ++ ['"']

/-- A string between double quotation marks. -/
def quotedString
    (text : String) :
    String :=
  String.ofList (Text.quoted text.toList)

/-- A character between single quotation marks. -/
def quotedChar
    (character : Char) :
    String :=
  let body :=
    if character = '\'' then ['\\', '\'']
    else if character = '"' then ['"']
    else Quoted.escape character
  String.ofList ('\'' :: body ++ ['\''])

end ScriptUplift
