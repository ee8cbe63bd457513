import ScriptUplift.Text.Basic

namespace ScriptUplift

/-!
# Indentation units

A unit is a tab or a number of spaces.  A unit that is neither (no tab and no
positive width) stands for an indentation that is not settled yet; it writes
tabs and counts four spaces to a level.

Levels and spaces are counted twice here.  `depth`, `lead`, `reindent` and `shift`
count without a bound.  `wordDepth`, `wordLead`, `wordReindent` and `wordShift` do
what a machine does, whose words wrap around and whose texts have a greatest
length.  Both agree as long as a unit is not too wide for what is asked of it.
-/

/-- The length of the longest text that a machine makes room for. -/
def longestText : Nat :=
  0x1000000000000

/-- A number as it is kept in a word of sixty-four bits with a sign. -/
def wordOf
    (number : Int) :
    Int :=
  number.bmod 0x10000000000000000

/-- Why a machine breaks down over a text that is asked of it. -/
inductive Breakdown
  /-- A character was to be repeated a negative number of times. -/
  | negative
  | tooLong
  deriving Repr, DecidableEq

/-- What a machine says when it breaks down. -/
def Breakdown.message : Breakdown → String
  | .negative => "strings: negative Repeat count"
  | .tooLong => "runtime error: makeslice: len out of range"

/-- The breakdown that something ended with. -/
def Breakdown.of?
    {α : Type} :
    Except Breakdown α → Option Breakdown
  | .error breakdown => some breakdown
  | .ok _ => none

/-- A character that a machine repeats. -/
def wordRepeat
    (count : Int)
    (character : Char) :
    Except Breakdown Text :=
  if count < 0 then .error .negative
  else if longestText < count then .error .tooLong
  else .ok (List.replicate count.toNat character)

/-- The indentation step used by a file. -/
structure IndentUnit where
  tab : Bool
  width : Int
  deriving Repr, DecidableEq

namespace IndentUnit

/-- One tab for each level. -/
def tabs : IndentUnit :=
  ⟨true, 1⟩

/-- A number of spaces for each level. -/
def spaces
    (width : Int) :
    IndentUnit :=
  ⟨false, width⟩

/-- The unit of a file whose indentation has not been settled. -/
def unsettled : IndentUnit :=
  ⟨false, 0⟩

/-- Whether a unit is the one of an unsettled file. -/
def isUnsettled
    (unit : IndentUnit) :
    Bool :=
  !unit.tab && unit.width == 0

/-- Whether the unit writes spaces. -/
def writesSpaces
    (unit : IndentUnit) :
    Bool :=
  !unit.tab && decide (0 < unit.width)

/-- The whitespace that stands for a number of levels. -/
def lead
    (unit : IndentUnit)
    (depth : Nat) :
    Text :=
  if unit.writesSpaces then
    List.replicate (depth * unit.width.toNat) ' '
  else
    List.replicate depth '\t'

/-- The number of spaces that count as one level when a depth is read. -/
def spacesPerLevel
    (unit : IndentUnit) :
    Nat :=
  if unit.writesSpaces then unit.width.toNat else 4

/--
The number of levels in the leading whitespace of a text: one for each tab, and
the spaces divided by the width, rounded up so that a partial step still reads
as nested.  A text of nothing but spaces and tabs has depth zero.
-/
def depth
    (unit : IndentUnit)
    (text : Text) :
    Nat :=
  if text.all isIndentChar then
    0
  else
    let leading := text.indentation
    let spaceCount := leading.count ' '
    leading.count '\t' + (spaceCount + unit.spacesPerLevel - 1) / unit.spacesPerLevel

/-- Replace the leading whitespace of a text by a number of levels. -/
def reindent
    (unit : IndentUnit)
    (text : Text)
    (depth : Nat) :
    Text :=
  unit.lead depth ++ text.dropIndentation

/-- Take one level off the front of a text, when a whole level stands there. -/
def dropLevel?
    (unit : IndentUnit)
    (text : Text) :
    Option Text :=
  match text.afterHead? ['\t'] with
  | some rest =>
      some rest
  | none =>
      if unit.writesSpaces then text.afterHead? (unit.lead 1) else none

/-- Take a number of levels off the front of a text, as far as whole levels stand there. -/
def dropLevels
    (unit : IndentUnit) :
    Nat → Text → Text
  | 0, text =>
      text
  | levels + 1, text =>
      match unit.dropLevel? text with
      | some rest =>
          unit.dropLevels levels rest
      | none =>
          text

/-- Move a text by a number of levels, to the right when it is positive. -/
def shift
    (unit : IndentUnit)
    (levels : Int)
    (text : Text) :
    Text :=
  if 0 < levels then
    unit.lead levels.toNat ++ text
  else
    unit.dropLevels (-levels).toNat text

/-! ## On a machine -/

/-- The length of what is written for one level. -/
def step
    (unit : IndentUnit) :
    Nat :=
  if unit.writesSpaces then unit.width.toNat else 1

/-- A machine has room for a number of levels. -/
def Holds
    (unit : IndentUnit)
    (levels : Nat) :
    Prop :=
  levels * unit.step ≤ longestText

/-- The whitespace that a machine writes for a number of levels. -/
def wordLead
    (unit : IndentUnit)
    (depth : Int) :
    Except Breakdown Text :=
  if depth ≤ 0 then .ok []
  else if unit.writesSpaces then wordRepeat (wordOf (depth * unit.width)) ' '
  else wordRepeat depth '\t'

/-- The number of levels that a machine counts for leading spaces. -/
def wordLevels
    (unit : IndentUnit)
    (spaceCount : Nat) :
    Int :=
  if spaceCount = 0 then 0
  else (wordOf (spaceCount + unit.spacesPerLevel - 1)).tdiv unit.spacesPerLevel

/-- The number of levels that a machine counts in the leading whitespace of a text. -/
def wordDepth
    (unit : IndentUnit)
    (text : Text) :
    Int :=
  if text.all isIndentChar then
    0
  else
    wordOf (text.indentation.count '\t' + unit.wordLevels (text.indentation.count ' '))

/-- Replace the leading whitespace of a text on a machine. -/
def wordReindent
    (unit : IndentUnit)
    (text : Text)
    (depth : Int) :
    Except Breakdown Text :=
  (unit.wordLead depth).map (· ++ text.dropIndentation)

/-- Take levels off the front of a text on a machine, which writes a level to compare with. -/
def wordDropLevels
    (unit : IndentUnit) :
    Nat → Text → Except Breakdown Text
  | 0, text =>
      .ok text
  | levels + 1, text =>
      match text.afterHead? ['\t'] with
      | some rest =>
          unit.wordDropLevels levels rest
      | none =>
          if unit.writesSpaces then
            match wordRepeat unit.width ' ' with
            | .error breakdown =>
                .error breakdown
            | .ok level =>
                match text.afterHead? level with
                | some rest => unit.wordDropLevels levels rest
                | none => .ok text
          else
            .ok text

/-- Move a text by a number of levels on a machine. -/
def wordShift
    (unit : IndentUnit)
    (levels : Int)
    (text : Text) :
    Except Breakdown Text :=
  if 0 < levels then (unit.wordLead levels).map (· ++ text)
  else unit.wordDropLevels (-levels).toNat text

end IndentUnit

end ScriptUplift
