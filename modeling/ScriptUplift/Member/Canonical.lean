import ScriptUplift.Fault
import ScriptUplift.Member.Unit

namespace ScriptUplift

/-!
# Canonical member order

Members are put together bucket by bucket, in their old order inside each
bucket, with one blank line between two buckets.
-/

namespace Canonical

/-- The member layout of a file counts once under this name when it changed. -/
def reorderCounter : String :=
  "member_reorder"

/-- A blank line that separates members. -/
def separator : Line :=
  { category := .blank }

/-- Remove the blank lines at the end. -/
def withoutTrailingBlanks
    (lines : List Line) :
    List Line :=
  (lines.reverse.dropWhile (·.isBlank)).reverse

/-- Whether the last line is blank. -/
def endsBlank
    (lines : List Line) :
    Bool :=
  lines.getLast?.any (·.isBlank)

/-- The lines of a bucket: a block is set off from the member after it, the last member is trimmed. -/
def bucketLines : List Member → List Line
  | [] =>
      []
  | [last] =>
      withoutTrailingBlanks last.lines
  | member :: rest =>
      member.lines ++
        (if member.head.opens && !endsBlank member.lines then [separator] else []) ++
        bucketLines rest

/-- The members of a bucket. -/
def membersOf
    (members : List Member)
    (bucket : Bucket) :
    List Member :=
  members.filter (·.bucket == bucket)

/-- Add the lines of a bucket, after a blank line unless nothing stands above. -/
def addBucket
    (members : List Member)
    (above : List Line)
    (bucket : Bucket) :
    List Line :=
  let own := membersOf members bucket
  if own.isEmpty then above
  else if above.isEmpty then bucketLines own
  else above ++ separator :: bucketLines own

/-- The lines of a script in canonical order. -/
def arrange
    (split : MemberSplit) :
    List Line :=
  Bucket.ofMembers.foldl (addBucket split.members) (withoutTrailingBlanks split.prelude)

end Canonical

namespace Source

/-- The fault of a file that still has an orphan. -/
def orphanFault
    (source : Source)
    (line : Line) :
    Fault :=
  .onFile .precondition source.path
    (.because .contract
      ("unresolved orphan at line " ++ toString line.number ++
        " before member canonicalization"))

/-- Put the members of a file into canonical order; a file with orphans is refused as it is. -/
def canonicalStage
    (source : Source) :
    Source × Option Fault :=
  let registered := source.register [Canonical.reorderCounter]
  match source.lines.find? (·.category == .orphan) with
  | some line =>
      (registered, some (source.orphanFault line))
  | none =>
      let split := MemberSplit.ofLines source.lines
      let arranged := Canonical.arrange split
      if split.members.isEmpty || arranged.map (·.text) == source.texts then
        (registered, none)
      else
        (({ registered with lines := arranged }).count Canonical.reorderCounter 1, none)

end Source

end ScriptUplift
