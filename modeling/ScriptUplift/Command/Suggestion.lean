import ScriptUplift.Text.Basic

namespace ScriptUplift

/-!
# Suggestions

A misspelt word is answered with the words that are close to it: those that it
begins, and those that a few edits of single bytes turn it into.  Upper and lower
case are not told apart.
-/

namespace Suggestion

/-- The most edits a suggestion is away. -/
def reach : Nat :=
  2

/-- A row of edit distances after another byte, given the distance to the left of the next one. -/
def nextRow
    (byte : UInt8) :
    Nat → List UInt8 → List Nat → List Nat
  | left, other :: others, diagonal :: above :: row =>
      let here :=
        if byte = other then diagonal
        else min (min left above) diagonal + 1
      here :: nextRow byte here others (above :: row)
  | _, _, _ =>
      []

/-- The edit distances from the bytes so far to the beginnings of a word. -/
def distances
    (word : List UInt8) :
    List Nat → List UInt8 → List Nat
  | row, [] =>
      row
  | row, byte :: rest =>
      let first := row.headD 0 + 1
      distances word (first :: nextRow byte first word row) rest

/-- The least number of bytes inserted, removed or replaced to turn one word into another. -/
def distance
    (first second : List UInt8) :
    Nat :=
  (distances second (List.range (second.length + 1)) first).getLastD 0

/-- A word in lower case. -/
def folded
    (word : String) :
    List UInt8 :=
  Text.utf8 (word.toList.map Char.toLower)

/-- Whether a word is close to a misspelt one. -/
def isClose
    (typed word : String) :
    Bool :=
  distance (folded typed) (folded word) ≤ reach || (folded typed).isPrefixOf (folded word)

/-- The words that are close to a misspelt one. -/
def among
    (words : List String)
    (typed : String) :
    List String :=
  words.filter (isClose typed)

end Suggestion

end ScriptUplift
