import ScriptUplift.Text.Quoted
import ScriptUplift.Text.Replace
import ScriptUplift.Yaml.Value

namespace ScriptUplift

/-!
# Writing scalars

A text is written plain where that reads back as the same text.  Otherwise it is
put between quotation marks: single ones if nothing has to be escaped and it would
not be taken for another value.  A text of several lines is written as a block.
-/

namespace Yaml

/-- Whether a character can be written as it is. -/
def isWritable
    (character : Char) :
    Bool :=
  let point := character.toNat
  point = 0x0A || (0x20 ≤ point && point ≤ 0x7E) ||
    (0xA0 ≤ point && point ≤ 0xFFFD && point != 0xFEFF)

/-- Whether a character is a line break. -/
def isBreak
    (character : Char) :
    Bool :=
  ['\n', '\r', '\u0085', '\u2028', '\u2029'].contains character

/-- Whether a text begins a mark of the notation. -/
def startsMark : Text → Bool
  | [] =>
      false
  | first :: rest =>
      ['#', ',', '[', ']', '\x7b', '\x7d', '&', '*', '!', '|', '>', '\'', '"', '%', '@',
        Char.ofNat 0x60].contains first ||
      (['?', ':', '-'].contains first && rest.head?.all isIndentChar) ||
      Text.startsWith (first :: rest) "---".toList || Text.startsWith (first :: rest) "...".toList

/-- Whether a colon before a blank, or a comment after one, stands inside a text. -/
def holdsMark : Text → Bool
  | [] =>
      false
  | before :: rest =>
      match rest with
      | ':' :: after => after.head?.all isIndentChar || holdsMark rest
      | '#' :: _ => isIndentChar before || isBreak before || holdsMark rest
      | _ => holdsMark rest

/-- Whether a break directly follows a space, or a space a break. -/
def mixesBreaks : Text → Bool
  | first :: second :: rest =>
      (first == ' ' && isBreak second) || (isBreak first && second == ' ') ||
        mixesBreaks (second :: rest)
  | _ =>
      false

/-- Whether a space directly precedes a break. -/
def spaceBeforeBreak : Text → Bool
  | first :: second :: rest =>
      (first == ' ' && isBreak second) || spaceBeforeBreak (second :: rest)
  | _ =>
      false

/-- Whether a text begins or ends with a space or a break. -/
def hasOuterGap
    (text : Text) :
    Bool :=
  let outer := fun (character : Option Char) =>
    character.any fun found => found == ' ' || isBreak found
  outer text.head? || outer text.getLast?

/-- Whether every character of a text can be written as it is, tabs apart. -/
def isWritableText
    (text : Text) :
    Bool :=
  text.all fun character => character == '\t' || isWritable character

/-- Whether single quotation marks keep a text. -/
def allowsSingle
    (text : Text) :
    Bool :=
  isWritableText text && !text.contains '\t' && !mixesBreaks text

/-- Whether a text on its own line needs no quotation marks. -/
def allowsPlain
    (text : Text) :
    Bool :=
  allowsSingle text && !hasOuterGap text && !text.any isBreak && !startsMark text && !holdsMark text

/-- Whether a text can be written as a block. -/
def allowsBlock
    (text : Text) :
    Bool :=
  isWritableText text && !spaceBeforeBreak text && text.getLast? != some ' '

/-- The truth values of old. -/
def oldFlags : List String :=
  ["y", "Y", "yes", "Yes", "YES", "on", "On", "ON", "n", "N", "no", "No", "NO", "off", "Off", "OFF"]

/-- Whether a text is a row of numbers up to sixty with colons between, and a fraction after. -/
def isSexagesimal
    (text : Text) :
    Bool :=
  let unsigned :=
    match text with
    | '-' :: rest => rest
    | '+' :: rest => rest
    | rest => rest
  let number := fun (character : Char) => isDigitChar character || character == '_'
  let (last, fraction) :=
    match Text.splitAt '.' unsigned with
    | [whole] => (whole, [])
    | [whole, fraction] => (whole, fraction)
    | _ => ([], ['x'])
  match Text.splitAt ':' last with
  | first :: second :: parts =>
      first.head?.any isDigitChar && first.all number && fraction.all number &&
        (second :: parts).all fun part =>
          match part with
          | [digit] => isDigitChar digit
          | [tens, digit] => '0' ≤ tens && tens ≤ '5' && isDigitChar digit
          | _ => false
  | _ =>
      false

/-- Whether a text without quotation marks would be taken for another value. -/
def looksLikeValue
    (text : Text) :
    Bool :=
  (YamlValue.ofPlain text).tag != "!!str" || oldFlags.contains (String.ofList text) ||
    isSexagesimal text || text == ['<', '<']

/-- The letters for characters that are escaped. -/
def writtenLetters : List (Nat × Char) :=
  [(0x00, '0'), (0x07, 'a'), (0x08, 'b'), (0x09, 't'), (0x0A, 'n'), (0x0B, 'v'), (0x0C, 'f'),
   (0x0D, 'r'), (0x1B, 'e'), (0x22, '"'), (0x5C, '\\'), (0x85, 'N'), (0xA0, '_'),
   (0x2028, 'L'), (0x2029, 'P')]

/-- A code point in capital hexadecimal digits. -/
def capitalHex
    (width point : Nat) :
    Text :=
  (Quoted.hexadecimal width point).map Char.toUpper

/-- One character between double quotation marks. -/
def doubleEscape
    (character : Char) :
    Text :=
  if isWritable character && !isBreak character && character != '"' && character != '\\' then
    [character]
  else
    match writtenLetters.lookup character.toNat with
    | some letter => ['\\', letter]
    | none =>
        if character.toNat ≤ 0xFF then '\\' :: 'x' :: capitalHex 2 character.toNat
        else if character.toNat ≤ 0xFFFF then '\\' :: 'u' :: capitalHex 4 character.toNat
        else '\\' :: 'U' :: capitalHex 8 character.toNat

/-- A text between double quotation marks. -/
def doubleText
    (text : Text) :
    Text :=
  '"' :: text.flatMap doubleEscape ++ ['"']

/-- A text between single quotation marks. -/
def singleText
    (text : Text) :
    Text :=
  '\'' :: Text.replaceAll text ['\''] ['\'', '\''] ++ ['\'']

/-- The indentation of nested lines. -/
def indentWidth : Nat :=
  4

/-- The head of a block: its indentation if that cannot be seen, and how it ends. -/
def blockHead
    (text : Text) :
    Text :=
  let hint :=
    if text.head?.any fun first => first == ' ' || isBreak first then
      Nat.toDigits 10 indentWidth
    else
      []
  let chomp :=
    match text.reverse with
    | last :: rest =>
        if !isBreak last then ['-']
        else if rest.head?.all isBreak then ['+']
        else []
    | [] => ['-']
  '|' :: hint ++ chomp

/--
The lines of a block with their indentation; empty lines have none.  A break in
first place is the one that ends the head.
-/
def blockBody
    (indent : Nat)
    (text : Text) :
    Text :=
  let lines := Text.splitAt '\n' text
  let closed := if lines.getLast? = some [] then lines.dropLast else lines
  let shown := if closed.head? = some [] then closed.drop 1 else closed
  shown.flatMap fun line =>
    '\n' :: if line.isEmpty then [] else List.replicate indent ' ' ++ line

/-- A text as a scalar whose further lines have an indentation. -/
def scalarText
    (indent : Nat)
    (text : Text) :
    Text :=
  if text.contains '\n' then
    if allowsBlock text then blockHead text ++ blockBody indent text else doubleText text
  else if looksLikeValue text then
    doubleText text
  else if allowsPlain text then
    text
  else if allowsSingle text then
    singleText text
  else
    doubleText text

end Yaml

end ScriptUplift
