import ScriptUplift.Diff.Matching
import ScriptUplift.Text.Basic

namespace ScriptUplift

/-!
# Unified diffs

The difference between two texts, line by line, in hunks with three lines of
context around every change.
-/

namespace Diff

/-- What happens to a stretch of lines. -/
inductive Change
  | keep
  | replace
  | delete
  | insert
  deriving Repr, DecidableEq

/-- A stretch of both texts and what happens to it. -/
structure Edit where
  change : Change
  region : Region
  deriving Repr, DecidableEq

/-- The change between two common stretches, if there is one. -/
def gapEdit
    (gap : Region) :
    List Edit :=
  if gap.leftLow < gap.leftHigh then
    if gap.rightLow < gap.rightHigh then [⟨.replace, gap⟩] else [⟨.delete, gap⟩]
  else if gap.rightLow < gap.rightHigh then
    [⟨.insert, gap⟩]
  else
    []

/-- The edits that lead from one text to the other, from given places on. -/
def editsFrom
    (leftLength rightLength : Nat) :
    Nat → Nat → List Block → List Edit
  | left, right, [] =>
      gapEdit ⟨left, leftLength, right, rightLength⟩
  | left, right, block :: rest =>
      gapEdit ⟨left, block.left, right, block.right⟩ ++
        ⟨.keep, ⟨block.left, block.left + block.size, block.right, block.right + block.size⟩⟩ ::
          editsFrom leftLength rightLength (block.left + block.size)
            (block.right + block.size) rest

/-- The number of lines of context. -/
def contextLines : Nat :=
  3

/-- The last lines of a kept stretch. -/
def keepEnd
    (region : Region) :
    Region :=
  { region with
    leftLow := max region.leftLow (region.leftHigh - contextLines)
    rightLow := max region.rightLow (region.rightHigh - contextLines) }

/-- The first lines of a kept stretch. -/
def keepStart
    (region : Region) :
    Region :=
  { region with
    leftHigh := min region.leftHigh (region.leftLow + contextLines)
    rightHigh := min region.rightHigh (region.rightLow + contextLines) }

/-- Shorten a kept stretch at the start of the edits to its context. -/
def trimFirst : List Edit → List Edit
  | ⟨.keep, region⟩ :: rest =>
      ⟨.keep, keepEnd region⟩ :: rest
  | edits =>
      edits

/-- Shorten a kept stretch at the end of the edits to its context. -/
def trimLast
    (edits : List Edit) :
    List Edit :=
  match edits.reverse with
  | ⟨.keep, region⟩ :: rest =>
      (⟨.keep, keepStart region⟩ :: rest).reverse
  | _ =>
      edits

/-- Cut edits into hunks at long kept stretches; the first argument is the hunk so far. -/
def hunksFrom : List Edit → List Edit → List (List Edit)
  | hunk, [] =>
      match hunk with
      | [] => []
      | [⟨.keep, _⟩] => []
      | _ => [hunk]
  | hunk, edit :: rest =>
      if edit.change = .keep ∧ 2 * contextLines < edit.region.leftHigh - edit.region.leftLow then
        (hunk ++ [⟨.keep, keepStart edit.region⟩]) ::
          hunksFrom [⟨.keep, keepEnd edit.region⟩] rest
      else
        hunksFrom (hunk ++ [edit]) rest

/-- A range of lines in a hunk header: an empty range starts one line earlier. -/
def rangeText
    (low high : Nat) :
    String :=
  if high - low = 1 then toString (low + 1)
  else if high - low = 0 then toString low ++ "," ++ toString (high - low)
  else toString (low + 1) ++ "," ++ toString (high - low)

/-- The lines of a text, each with its line break; the last one always gets one. -/
def diffLines
    (text : Text) :
    List Text :=
  (text.splitAt '\n').map (· ++ ['\n'])

/-- Mark the lines of a range. -/
def markLines
    (mark : Char)
    (lines : Array Text)
    (low high : Nat) :
    Text :=
  (lines.extract low high).toList.flatMap (mark :: ·)

/-- The text of an edit. -/
def editText
    (left right : Array Text)
    (edit : Edit) :
    Text :=
  let region := edit.region
  let removed := markLines '-' left region.leftLow region.leftHigh
  let added := markLines '+' right region.rightLow region.rightHigh
  match edit.change with
  | .keep => markLines ' ' left region.leftLow region.leftHigh
  | .replace => removed ++ added
  | .delete => removed
  | .insert => added

/-- The text of a hunk. -/
def hunkText
    (left right : Array Text)
    (hunk : List Edit) :
    Text :=
  match hunk.head?, hunk.getLast? with
  | some first, some last =>
      ("@@ -" ++ rangeText first.region.leftLow last.region.leftHigh ++ " +" ++
        rangeText first.region.rightLow last.region.rightHigh ++ " @@\n").toList ++
        hunk.flatMap (editText left right)
  | _, _ =>
      []

/-- The unified diff of two versions of a file; equal versions have an empty one. -/
def unified
    (name : String)
    (before after : Text) :
    Text :=
  let left := diffLines before
  let right := diffLines after
  let edits := editsFrom left.length right.length 0 0 (matchingBlocks left right)
  let hunks := hunksFrom [] (trimLast (trimFirst edits))
  if hunks.isEmpty then
    []
  else
    ("--- a/" ++ name ++ "\n+++ b/" ++ name ++ "\n").toList ++
      hunks.flatMap (hunkText left.toArray right.toArray)

end Diff

end ScriptUplift
