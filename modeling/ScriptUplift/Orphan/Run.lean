import ScriptUplift.Orphan.Binding

namespace ScriptUplift

/-!
# Orphan runs

An orphan is a statement stranded at file scope.  A run starts at such a
statement and takes in its nested lines, its continuation lines and the comments
between two of its members.
-/

/-- A line, with the name it declares if it is commented-out code. -/
structure Tracked where
  line : Line
  declares : Option Text := none
  deriving Repr, DecidableEq

/-- Whether a line starts a statement stranded at file scope. -/
def Line.leadsIn
    (line : Line) :
    Bool :=
  !line.continues && !line.annotationOnly && line.scope == .file &&
    (match line.category with
      | .other | .controlFlow | .orphan => true
      | _ => false) &&
    !isInnerClassHeader line.code

/-- Whether a line extends a run that reaches it. -/
def Line.joinsRun
    (line : Line) :
    Bool :=
  line.continues || line.scope == .block || line.leadsIn

/-- How many of the lines after its lead a run takes in. -/
def runReach : List Tracked → Nat
  | [] =>
      0
  | tracked :: rest =>
      if !tracked.line.continues && tracked.line.category.isTrivia then
        match runReach rest with
        | 0 => 0
        | reach + 1 => reach + 2
      else if tracked.line.joinsRun then
        runReach rest + 1
      else
        0

/-- Mark a statement of a run as an orphan. -/
def Tracked.markOrphan
    (tracked : Tracked) :
    Tracked :=
  if tracked.line.isStatement then
    { tracked with line := { tracked.line with category := .orphan } }
  else
    tracked

/-- A stretch of a file: a line outside the runs, or a run. -/
inductive Segment
  | kept (tracked : Tracked)
  | run (members : List Tracked)
  deriving Repr, DecidableEq

namespace Segment

/-- The lines of a stretch. -/
def members : Segment → List Tracked
  | .kept tracked => [tracked]
  | .run members => members

/-- Whether a stretch is a run. -/
def isRun : Segment → Bool
  | .kept _ => false
  | .run _ => true

/--
Cut lines into runs and the lines outside them.  The first argument is the
number of lines that already belong to the run before them.
-/
def cut : Nat → List Tracked → List Segment
  | _, [] =>
      []
  | 0, tracked :: rest =>
      if tracked.line.leadsIn then
        let reach := runReach rest
        .run ((tracked :: rest.take reach).map Tracked.markOrphan) :: cut reach rest
      else
        .kept tracked :: cut 0 rest
  | taken + 1, _ :: rest =>
      cut taken rest

end Segment

/-- The runs of a file, their statements marked as orphans. -/
def orphanRuns
    (source : Source) :
    List (List Tracked) :=
  ((Segment.cut 0 (source.lines.map ({ line := · }))).filter (·.isRun)).map (·.members)

/--
Whether a run only assigns values: its first statement binds a name and no
statement calls anything that may have effects.
-/
def isSafeRun
    (members : List Tracked) :
    Bool :=
  match members with
  | lead :: _ =>
      (Assignment.ofCode? lead.line.code).isSome &&
        members.all fun tracked =>
          tracked.line.category.isTrivia || isPureCode tracked.line.code
  | [] =>
      false

end ScriptUplift
