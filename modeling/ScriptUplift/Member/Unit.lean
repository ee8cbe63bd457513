import ScriptUplift.Source

namespace ScriptUplift

/-!
# Members of a script

A member is a statement at class scope with the comments and annotations
directly above it, everything nested under it and the blank lines that follow.
What stands above the first member is the prelude.
-/

/-- One class-scope member. -/
structure Member where
  /-- The comments and annotations above the first line. -/
  lead : List Line
  head : Line
  /-- Everything after the first line. -/
  body : List Line
  deriving Repr, DecidableEq

namespace Member

/-- All lines of a member. -/
def lines
    (member : Member) :
    List Line :=
  member.lead ++ member.head :: member.body

/-- The canonical slot of a member. -/
def bucket
    (member : Member) :
    Bucket :=
  member.head.category.bucket

end Member

namespace Line

/-- Whether a line is the first line of a member. -/
def isHead
    (line : Line) :
    Bool :=
  !line.continues && !line.annotationOnly && line.depth == 0 && !line.category.isTrivia

/-- Whether a line is nested under the member above it. -/
def isNested
    (line : Line) :
    Bool :=
  line.continues || (decide (0 < line.depth) && !line.category.isTrivia)

/-- Whether a comment or blank line is indented, so that it belongs to the body above it. -/
def isIndentedTrivia
    (line : Line) :
    Bool :=
  decide (0 < line.depth) && line.category.isTrivia

end Line

/-- The members of a script and what stands above the first of them. -/
structure MemberSplit where
  prelude : List Line
  members : List Member
  deriving Repr, DecidableEq

namespace MemberSplit

/--
Cut the lines above a member into those that belong to what is above and the
lead of the member: the block after the last blank line, without the indented
comments it begins with.
-/
def cutLead
    (pending : List Line) :
    List Line × List Line :=
  let block := (pending.reverse.takeWhile (!·.isBlank)).reverse
  let lead := block.dropWhile (·.isIndentedTrivia)
  (pending.take (pending.length - lead.length), lead)

/-- Put lines in front of a split. -/
def push
    (above : List Line)
    (split : MemberSplit) :
    MemberSplit :=
  { split with prelude := above ++ split.prelude }

/-- Start a member whose body is the prelude of what follows. -/
def start
    (lead : List Line)
    (head : Line)
    (rest : MemberSplit) :
    MemberSplit where
  prelude := []
  members := ⟨lead, head, rest.prelude⟩ :: rest.members

/--
Split lines into what stands above the first member and the members.  The first
argument tells whether a member is open above, the second holds the lines that
are not placed yet.
-/
def cut : Bool → List Line → List Line → MemberSplit
  | _, pending, [] =>
      ⟨pending, []⟩
  | inMember, pending, line :: rest =>
      if line.isHead then
        let (above, lead) := cutLead pending
        push above (start lead line (cut true [] rest))
      else if inMember && line.isNested then
        push (pending ++ [line]) (cut true [] rest)
      else
        cut inMember (pending ++ [line]) rest

/-- Split the lines of a script. -/
def ofLines
    (lines : List Line) :
    MemberSplit :=
  cut false [] lines

end MemberSplit

end ScriptUplift
