import ScriptUplift.Text.Basic

namespace ScriptUplift

/-!
# Reports

A tally counts under names, in the order in which the names first appeared.  A
report is the tally of the fixes made in one file together with the issues
that could not be resolved without guessing.
-/

/-- Counters by name, in order of first appearance. -/
structure Tally where
  entries : List (String × Int) := []
  deriving Repr, DecidableEq

namespace Tally

/-- The count under a name, if the name is known. -/
def get?
    (tally : Tally)
    (name : String) :
    Option Int :=
  tally.entries.lookup name

/-- The known names. -/
def names
    (tally : Tally) :
    List String :=
  tally.entries.map Prod.fst

/-- Change the count under a name that is known. -/
def bump
    (name : String)
    (amount : Int) :
    List (String × Int) → List (String × Int)
  | [] =>
      []
  | (known, count) :: rest =>
      if known = name then
        (known, count + amount) :: rest
      else
        (known, count) :: bump name amount rest

/-- Add to the count under a name, which starts at zero. -/
def add
    (tally : Tally)
    (name : String)
    (amount : Int) :
    Tally :=
  if tally.names.contains name then
    ⟨bump name amount tally.entries⟩
  else
    ⟨tally.entries ++ [(name, amount)]⟩

/-- Make names known even if they never count anything. -/
def register
    (tally : Tally)
    (names : List String) :
    Tally :=
  names.foldl (fun known name => known.add name 0) tally

/-- Add every count of another tally. -/
def merge
    (tally other : Tally) :
    Tally :=
  other.entries.foldl (fun sum entry => sum.add entry.1 entry.2) tally

/-- The sum of all counts. -/
def total
    (tally : Tally) :
    Int :=
  (tally.entries.map Prod.snd).foldr (· + ·) 0

end Tally

/-- What kind of problem an issue is about. -/
inductive IssueKind
  /-- A statement outside any method was commented out. -/
  | unresolvedOrphan
  /-- A name is used that only commented-out code declares. -/
  | suppressedReference
  /-- A comment left by an earlier tool marks commented-out code. -/
  | legacyMarker
  /-- A kind that only its reporter knows. -/
  | named (name : String)
  deriving Repr, DecidableEq

namespace IssueKind

/-- The name a kind is reported under. -/
def name : IssueKind → String
  | .unresolvedOrphan => "unresolved_orphan"
  | .suppressedReference => "suppressed_reference"
  | .legacyMarker => "legacy_orphan_marker"
  | .named name => name

/-- Find a kind by its name. -/
def ofName
    (name : String) :
    IssueKind :=
  if name = "unresolved_orphan" then .unresolvedOrphan
  else if name = "suppressed_reference" then .suppressedReference
  else if name = "legacy_orphan_marker" then .legacyMarker
  else .named name

end IssueKind

/-- Something that could not be repaired without guessing. -/
structure Issue where
  kind : IssueKind
  line : Int
  name : String := ""
  message : String
  deriving Repr, DecidableEq

/-- The counters and unresolved issues of one file. -/
structure Report where
  counters : Tally := {}
  issues : List Issue := []
  deriving Repr, DecidableEq

namespace Report

/-- Make counters visible even if they never fire. -/
def register
    (report : Report)
    (names : List String) :
    Report :=
  { report with counters := report.counters.register names }

/-- Count fixes under a name. -/
def add
    (report : Report)
    (name : String)
    (amount : Int) :
    Report :=
  { report with counters := report.counters.add name amount }

/-- Record unresolved issues after the ones already there. -/
def addIssues
    (report : Report)
    (issues : List Issue) :
    Report :=
  { report with issues := report.issues ++ issues }

/-- The sum of every counter. -/
def fixes
    (report : Report) :
    Int :=
  report.counters.total

/-- Whether no counter fired and no issue was recorded. -/
def isZero
    (report : Report) :
    Bool :=
  report.fixes == 0 && report.issues.isEmpty

end Report

end ScriptUplift
