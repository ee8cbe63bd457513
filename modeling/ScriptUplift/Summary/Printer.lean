import ScriptUplift.Summary.Basic
import ScriptUplift.Text.Color

namespace ScriptUplift

/-!
# Printing a summary
-/

namespace Summary

/-- One changed file, with its diff if diffs are shown. -/
def changeText
    (dry showDiff : Bool)
    (change : FileChange) :
    String :=
  change.path ++ " (" ++ toString change.fixes ++ " fixes)" ++
    (if dry then " [dry-run]" else "") ++ "\n" ++
    (if showDiff then change.diff else "")

/-- The changed files. -/
def changesText
    (summary : Summary)
    (dry showDiff : Bool) :
    String :=
  String.join (summary.changes.map (changeText dry showDiff))

/-- The totals of the run. -/
def totalsText
    (summary : Summary)
    (dry colored : Bool) :
    String :=
  let heading :=
    if dry then "Dry run complete (no files written):" else "Migration complete:"
  let unresolved := toString summary.unresolved
  "\n" ++ Paint.bold.apply colored heading ++ "\n" ++
    "  Files scanned:  " ++ toString summary.scanned ++ "\n" ++
    "  Files modified: " ++ toString summary.modified ++ "\n" ++
    (if 0 < summary.cached then
      "  Files cached:   " ++ toString summary.cached ++ " (clean last run)\n"
    else
      "") ++
    "  Total fixes:    " ++ toString summary.fixes ++ "\n" ++
    "  Unresolved:     " ++
    (if 0 < summary.unresolved then Paint.yellowBold.apply colored unresolved
     else unresolved) ++ "\n"

/-- The totals of each rule, in order of their names. -/
def rulesText
    (summary : Summary)
    (colored : Bool) :
    String :=
  if summary.ruleTotals.entries.isEmpty then
    ""
  else
    "\n" ++ Paint.bold.apply colored "Fixes by rule:" ++ "\n" ++
      String.join
        ((summary.ruleTotals.entries.mergeSort fun first second =>
          first.1 ≤ second.1).map fun entry =>
          "  " ++ padRight 28 entry.1 ++ " " ++ toString entry.2 ++ "\n")

/-- The files that failed. -/
def failuresText
    (summary : Summary)
    (colored : Bool) :
    String :=
  if summary.failures.isEmpty then
    ""
  else
    "\n" ++
      Paint.redBold.apply colored
        ("Failures (" ++ toString summary.failures.length ++ "):") ++ "\n" ++
      String.join
        (summary.failures.map fun failure =>
          "  - " ++ failure.path ++ ": " ++ failure.fault.message ++ "\n")

/-- What is printed after the changed files. -/
def text
    (summary : Summary)
    (dry colored : Bool) :
    String :=
  summary.totalsText dry colored ++ summary.rulesText colored ++
    summary.failuresText colored

end Summary

end ScriptUplift
