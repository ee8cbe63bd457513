import ScriptUplift.Orphan.Reference

namespace ScriptUplift

/-!
# Resolving orphan runs

A run that only assigns values is wrapped in a method of its own; every other
run is commented out, statement by statement, and reported.
-/

namespace Orphan

/-- Wrapped runs are counted under this name. -/
def wrapCounter : String :=
  "orphan_wrap"

/-- Suppressed statements are counted under this name. -/
def suppressCounter : String :=
  "orphan_suppress"

/-- The name of wrapper methods unless another one is configured. -/
def defaultWrapperName : String :=
  "_migrated_init"

/-- The base name with a number. -/
def numberedName
    (base : Text)
    (number : Nat) :
    Text :=
  base ++ '_' :: (toString number).toList

/--
The first numbered variant of a base name that is not taken.  On a collision the
name is erased from the taken ones, which become fewer with every step.
-/
def freshNumberedName
    (base : Text)
    (taken : List Text)
    (number : Nat) :
    Text :=
  if collision : numberedName base number ∈ taken then
    freshNumberedName base (taken.erase (numberedName base number)) (number + 1)
  else
    numberedName base number
termination_by taken.length
decreasing_by
  rw [List.length_erase_of_mem collision]
  exact Nat.sub_lt (List.length_pos_of_mem collision) (by decide)

/-- A name for a wrapper method that is not taken: the base name, or a numbered variant from 2 on. -/
def freshName
    (base : Text)
    (taken : List Text) :
    Text :=
  if taken.contains base then freshNumberedName base taken 2 else base

/-- The names of the methods of a file. -/
def namesOfMethods
    (lines : List Line) :
    List Text :=
  (lines.filter (·.category.isMethod)).filterMap fun line =>
    methodName? (identifiers line.code)

/-- What is done about a stretch of a file. -/
inductive Verdict
  | keep (tracked : Tracked)
  | wrap (name : Text) (members : List Tracked)
  | suppress (members : List Tracked)
  deriving Repr, DecidableEq

/-- Decide about the stretches of a file, naming safe runs from the top. -/
def decideAll
    (base : Text) :
    List Text → List Segment → List Verdict
  | _, [] =>
      []
  | taken, .kept tracked :: rest =>
      .keep tracked :: decideAll base taken rest
  | taken, .run members :: rest =>
      if isSafeRun members then
        let name := freshName base taken
        .wrap name members :: decideAll base (name :: taken) rest
      else
        .suppress members :: decideAll base taken rest

/-- The header of a wrapper method, at the depth of the run it wraps. -/
def wrapperHeader
    (unit : IndentUnit)
    (depth : Nat)
    (name : Text) :
    Line where
  text := unit.lead depth ++ "func ".toList ++ name ++ "():".toList
  depth := depth
  opens := true

/-- Move a line of a wrapped run one level deeper. -/
def wrapLine
    (unit : IndentUnit)
    (tracked : Tracked) :
    Tracked :=
  let line := { tracked.line with scope := .method }
  if line.text.isBlank || line.inString then
    { tracked with line := line }
  else
    { tracked with line := { line with text := unit.lead 1 ++ line.text } }

/-- Whether a line of a run is one of its orphaned statements. -/
def isOrphanStatement
    (tracked : Tracked) :
    Bool :=
  !tracked.line.text.isBlank && tracked.line.category == .orphan

/-- The issue about a suppressed statement. -/
def suppressIssue
    (tracked : Tracked) :
    Issue where
  kind := .unresolvedOrphan
  line := tracked.line.number
  message :=
    "statement outside any method was commented out: " ++
      String.ofList tracked.line.text.trim

/-- Comment out a line of a run and note the name it declares. -/
def suppressLine
    (tracked : Tracked) :
    Tracked :=
  if tracked.line.text.isBlank then
    tracked
  else
    { line :=
        { tracked.line with
          text := Marker.suppressed ++ tracked.line.text
          category := .comment }
      declares :=
        if isOrphanStatement tracked then
          (boundName? tracked.line.text).or tracked.declares
        else
          tracked.declares }

namespace Verdict

/-- The depth of the first line of a wrapped run, which its header takes over. -/
def leadDepth
    (members : List Tracked) :
    Nat :=
  (members.head?.map (·.line.depth)).getD 0

/-- The lines a verdict leaves. -/
def lines
    (unit : IndentUnit) : Verdict → List Tracked
  | .keep tracked =>
      [tracked]
  | .wrap name members =>
      { line := wrapperHeader unit (leadDepth members) name } ::
        members.map (wrapLine unit)
  | .suppress members =>
      members.map suppressLine

/-- The issues a verdict adds. -/
def issues : Verdict → List Issue
  | .suppress members =>
      (members.filter isOrphanStatement).map suppressIssue
  | _ =>
      []

/-- The suppressed lines that declare names. -/
def declarations : Verdict → List Tracked
  | .suppress members =>
      (members.filter isOrphanStatement).map suppressLine
  | _ =>
      []

/-- The breakdown of a machine that carries out a verdict: it writes the leads of wrapped runs. -/
def breakdown?
    (unit : IndentUnit) : Verdict → Option Breakdown
  | .wrap _ members =>
      (Breakdown.of? (unit.wordLead (leadDepth members))).or
        (if members.all fun tracked => tracked.line.text.isBlank || tracked.line.inString then
          none
        else
          Breakdown.of? (unit.wordLead 1))
  | _ =>
      none

/-- Whether a verdict wraps a run. -/
def isWrap : Verdict → Bool
  | .wrap _ _ => true
  | _ => false

/-- Whether a verdict is about a run. -/
def isRun : Verdict → Bool
  | .keep _ => false
  | _ => true

end Verdict

/-- The base of wrapper names that a configured name asks for. -/
def baseName
    (wrapperName : String) :
    Text :=
  (if wrapperName = "" then defaultWrapperName else wrapperName).toList

/-- The stretches of a file. -/
def segmentsOf
    (lines : List Line) :
    List Segment :=
  Segment.cut 0 (lines.map seedLine)

/-- The verdicts about the stretches of a file. -/
def verdictsOf
    (wrapperName : String)
    (lines : List Line) :
    List Verdict :=
  decideAll (baseName wrapperName)
    (namesOfMethods (((segmentsOf lines).flatMap (·.members)).map (·.line)))
    (segmentsOf lines)

/-- Carry out the verdicts about a file; the runs are reported from the last to the first. -/
def resolve
    (source : Source)
    (verdicts : List Verdict) :
    Source × List Tracked :=
  let fromLast := verdicts.reverse
  let issues := fromLast.flatMap (·.issues)
  let tracked := verdicts.flatMap (·.lines source.unit)
  let wrapped := verdicts.countP (·.isWrap)
  let resolved :=
    { source with
      lines := tracked.map (·.line)
      suppressed := rememberNames source.suppressed (fromLast.flatMap (·.declarations))
      report :=
        ((source.report.add wrapCounter wrapped).add suppressCounter issues.length).addIssues
          issues }
  (resolved, tracked)

end Orphan

namespace Source

/-- Take back the names the lines of a file were tracked with, after they were recomputed. -/
def track
    (source : Source)
    (tracked : List Tracked) :
    List Tracked :=
  source.lines.zipWith (fun line known => { known with line := line }) tracked

/-- Resolve the orphan runs of a file and report the uses of suppressed names. -/
def orphanStage
    (wrapperName : String)
    (source : Source) :
    Source :=
  let seeds := source.lines.map seedLine
  let registered := source.register [Orphan.wrapCounter, Orphan.suppressCounter]
  let seeded :=
    { registered with
      report := registered.report.addIssues (seedIssues source.lines)
      suppressed := rememberNames source.suppressed seeds }
  let verdicts := Orphan.verdictsOf wrapperName source.lines
  let (resolved, tracked) :=
    if verdicts.any (·.isRun) then
      let (changed, tracked) := Orphan.resolve seeded verdicts
      let refreshed := changed.refresh
      (refreshed, refreshed.track tracked)
    else
      (seeded, seeds)
  { resolved with
    report := resolved.report.addIssues (referenceIssues resolved.suppressed tracked) }

/-- The breakdown of a machine that resolves the orphan runs of a file, from the last run up. -/
def orphanBreakdown?
    (wrapperName : String)
    (source : Source) :
    Option Breakdown :=
  (Orphan.verdictsOf wrapperName source.lines).reverse.findSome? (·.breakdown? source.unit)

end Source

end ScriptUplift
