import ScriptUplift.Orphan.Run

namespace ScriptUplift

/-!
# Suppression markers

A suppressed line is commented out behind a marker; removing the marker gives
the line back.  Markers of earlier tools are understood too, so that what they
commented out is reported again.
-/

namespace Marker

/-- What stands before a suppressed line. -/
def suppressed : Text :=
  "# orphaned: ".toList

/-- The markers of earlier tools. -/
def legacy : List Text :=
  ["# FIXME: Orphaned code - ", "# FIXED: Orphaned code - ",
   "# ORPHANED REF: "].map String.toList

/-- The text a suppressed line had before its suppression. -/
def recover?
    (text : Text) :
    Option Text :=
  text.afterHead? suppressed

/-- The code behind a marker and the kind of the issue it stands for. -/
def payload?
    (comment : Text) :
    Option (Text × IssueKind) :=
  match recover? comment with
  | some code =>
      some (code, .unresolvedOrphan)
  | none =>
      (legacy.findSome? comment.afterHead?).map fun code => (code, .legacyMarker)

/-- A statement found behind a marker. -/
structure Found where
  payload : Text
  kind : IssueKind
  deriving Repr, DecidableEq

/-- The statement a comment line suppresses, if it carries a marker. -/
def found?
    (line : Line) :
    Option Found :=
  if line.category = .comment then
    match payload? line.text.dropIndentation with
    | some (payload, kind) =>
        let statement := payload.trim
        if statement = [] || statement.startsWith ['#'] then none else some ⟨payload, kind⟩
    | none =>
        none
  else
    none

/-- The issue that reports a suppressed statement again. -/
def Found.issue
    (found : Found)
    (line : Line) :
    Issue where
  kind := found.kind
  line := line.number
  message :=
    (if found.kind = .legacyMarker then "orphan marker left by an earlier tool: "
     else "previously suppressed statement is still unresolved: ") ++
      String.ofList found.payload.trim

end Marker

/-- Remember the line that declares a name, unless one is remembered already. -/
def rememberName
    (known : List (Text × Nat))
    (name : Text)
    (number : Nat) :
    List (Text × Nat) :=
  if (known.lookup name).isSome then known else known ++ [(name, number)]

/-- Remember the lines that declare names, in order. -/
def rememberNames
    (known : List (Text × Nat))
    (tracked : List Tracked) :
    List (Text × Nat) :=
  tracked.foldl
    (fun names member =>
      match member.declares with
      | some name => rememberName names name member.line.number
      | none => names)
    known

/-- Track the names that suppressed code of earlier runs declares. -/
def seedLine
    (line : Line) :
    Tracked where
  line := line
  declares := (Marker.found? line).bind (boundName? ·.payload)

/-- The issues that report the suppressed statements of earlier runs again. -/
def seedIssues
    (lines : List Line) :
    List Issue :=
  lines.filterMap fun line => (Marker.found? line).map (·.issue line)

end ScriptUplift
