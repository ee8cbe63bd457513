import ScriptUplift.Text.Basic

namespace ScriptUplift

/-!
# YAML documents

A document is a tree of scalars, sequences and mappings.  This module holds the
tree and the place a reader has come to.
-/

/-- A node of a document. -/
inductive YamlNode
  /-- A scalar: its text, whether it stood without quotes, and its tag. -/
  | scalar (text : Text) (plain : Bool) (tag : Option Text)
  | sequence (items : List YamlNode)
  | mapping (pairs : List (YamlNode × YamlNode))
  deriving Repr

namespace YamlNode

/-- What stands where nothing is written. -/
def absent : YamlNode :=
  .scalar [] true none

/-- Give a scalar a tag. -/
def withTag
    (tag : Text) :
    YamlNode → YamlNode
  | .scalar text plain _ => .scalar text plain (some tag)
  | node => node

/-- Whether a key asks for the fields of another mapping. -/
def isMergeKey : YamlNode → Bool
  | .scalar text plain none => plain && text == ['<', '<']
  | _ => false

end YamlNode

namespace Yaml

/-- Where a reader is. -/
structure Cursor where
  rest : Text
  /-- The number of characters before it on its line. -/
  column : Nat
  /-- The nodes that have a name. -/
  anchors : List (Text × YamlNode) := []
  deriving Repr

/-- Whether a character ends a word: a blank, a line break or the end. -/
def isGapChar
    (character : Option Char) :
    Bool :=
  character.all fun found => found == ' ' || found == '\t' || found == '\n'

/-- Pass over blanks, comments and line breaks; the answer tells if a line break was passed. -/
def skipGap
    (flow : Bool) :
    (comment crossed tabs : Bool) → Nat → Text → Bool × Nat × Text
  | _, crossed, _, column, [] =>
      (crossed, column, [])
  | comment, crossed, tabs, column, character :: rest =>
      if character = '\n' then
        skipGap flow false true flow 0 rest
      else if comment || character = ' ' || (character = '\t' && tabs) then
        skipGap flow comment crossed tabs (column + 1) rest
      else if character = '#' then
        skipGap flow true crossed tabs (column + 1) rest
      else
        (crossed, column, character :: rest)

namespace Cursor

/-- Move over the given number of characters of a line. -/
def advance
    (cursor : Cursor)
    (count : Nat) :
    Cursor :=
  { cursor with rest := cursor.rest.drop count, column := cursor.column + count }

/-- Move to the given rest of the same line. -/
def moveTo
    (cursor : Cursor)
    (rest : Text) :
    Cursor :=
  { cursor with rest, column := cursor.column + (cursor.rest.length - rest.length) }

/--
Move over a gap.  Tabs count as blanks inside brackets and, if so asked, up to the
end of the line; they are no indentation.
-/
def skip
    (cursor : Cursor)
    (flow tabs : Bool) :
    Bool × Cursor :=
  let (crossed, column, rest) := skipGap flow false false (flow || tabs) cursor.column cursor.rest
  (crossed, { cursor with rest, column })

/-- Move over the blanks of a line. -/
def skipBlanks
    (cursor : Cursor) :
    Cursor :=
  cursor.moveTo (cursor.rest.dropWhile isIndentChar)

/-- Whether a character stands here and a gap follows it. -/
def atMark
    (cursor : Cursor)
    (mark : Char) :
    Bool :=
  match cursor.rest with
  | character :: rest => character == mark && isGapChar rest.head?
  | [] => false

end Cursor

/-- The line breaks between two words: a single one is a blank, and of more the first is dropped. -/
def foldBreaks : Nat → Text
  | 0 => []
  | 1 => [' ']
  | count + 2 => List.replicate (count + 1) '\n'

end Yaml

end ScriptUplift
