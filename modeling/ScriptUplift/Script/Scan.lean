import ScriptUplift.Text.Basic

namespace ScriptUplift

/-!
# Scanning one line

A physical line is read from left to right with one piece of state, the string
literal that is open.  The scan separates code from comment, counts brackets
outside strings and comments, and tells which multiline string is still open
at the end of the line.
-/

/-- The delimiter of a string literal: one quotation mark, or the mark three times. -/
structure Delimiter where
  mark : Char
  triple : Bool
  deriving Repr, DecidableEq

namespace Delimiter

/-- The characters a delimiter is written with. -/
def toText
    (delimiter : Delimiter) :
    Text :=
  List.replicate (if delimiter.triple then 3 else 1) delimiter.mark

/-- Read a delimiter: one character, or the same character three times. -/
def ofText? : Text → Option Delimiter
  | [mark] =>
      some ⟨mark, false⟩
  | [first, second, third] =>
      if first = second ∧ second = third then some ⟨first, true⟩ else none
  | _ =>
      none

end Delimiter

/-- The two characters that delimit string literals. -/
def isQuoteMark (character : Char) : Bool :=
  character == '"' || character == '\''

/-- The opening brackets of the script language. -/
def isOpeningBracket (character : Char) : Bool :=
  character == '(' || character == '[' || character == '\x7b'

/-- The closing brackets of the script language. -/
def isClosingBracket (character : Char) : Bool :=
  character == ')' || character == ']' || character == '\x7d'

/-- How much a character outside strings changes the bracket depth. -/
def bracketStep (character : Char) : Int :=
  if isOpeningBracket character then 1
  else if isClosingBracket character then -1
  else 0

/-- The lexical summary of one physical line. -/
structure Scan where
  code : Text
  comment : Text
  /-- The change of bracket depth across the line. -/
  delta : Int
  /-- The delimiter of a multiline string left open at the end of the line. -/
  openString : Option Delimiter
  deriving Repr, DecidableEq

namespace Scan

/-- Put a character of code in front of a scanned rest. -/
def cons
    (character : Char)
    (step : Int)
    (rest : Scan) :
    Scan :=
  { rest with code := character :: rest.code, delta := step + rest.delta }

/-- The scan of an exhausted line: only a triple delimiter outlives the line. -/
def atEnd
    (quote : Option Delimiter) :
    Scan where
  code := []
  comment := []
  delta := 0
  openString := quote.filter (·.triple)

/--
Scan a line that begins inside the given string literal, or in code.  Inside a
string a backslash protects the next character.
-/
def line : Option Delimiter → Text → Scan
  | quote, [] =>
      atEnd quote
  | none, character :: rest =>
      if character = '#' then
        { code := [], comment := character :: rest, delta := 0, openString := none }
      else if isQuoteMark character then
        match rest with
        | second :: third :: tail =>
            if second = character ∧ third = character then
              cons character 0 (cons second 0 (cons third 0
                (line (some ⟨character, true⟩) tail)))
            else
              cons character 0 (line (some ⟨character, false⟩) (second :: third :: tail))
        | [second] =>
            cons character 0 (line (some ⟨character, false⟩) [second])
        | [] =>
            cons character 0 (line (some ⟨character, false⟩) [])
      else
        cons character (bracketStep character) (line none rest)
  | some quote, character :: rest =>
      if character = '\\' then
        match rest with
        | escaped :: tail =>
            cons character 0 (cons escaped 0 (line (some quote) tail))
        | [] =>
            cons character 0 (atEnd (some quote))
      else if character = quote.mark then
        if quote.triple then
          match rest with
          | second :: third :: tail =>
              if second = quote.mark ∧ third = quote.mark then
                cons character 0 (cons second 0 (cons third 0 (line none tail)))
              else
                cons character 0 (line (some quote) (second :: third :: tail))
          | [second] =>
              cons character 0 (line (some quote) [second])
          | [] =>
              cons character 0 (line (some quote) [])
        else
          cons character 0 (line none rest)
      else
        cons character 0 (line (some quote) rest)

/-- A line is continued by a backslash at the end of its code, outside multiline strings. -/
def backslash
    (scan : Scan) :
    Bool :=
  scan.openString.isNone && scan.code.dropEndIndentation.endsWith ['\\']

end Scan

/-- Code opens a block when it ends in a colon. -/
def opensBlock
    (code : Text) :
    Bool :=
  code.dropEndIndentation.endsWith [':']

end ScriptUplift
