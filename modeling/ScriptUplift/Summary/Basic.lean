import ScriptUplift.Category
import ScriptUplift.Diagnostics.Legacy
import ScriptUplift.Fault
import ScriptUplift.Report
import ScriptUplift.Summary.PatternSort

namespace ScriptUplift

/-!
# The summary of a run

The summary adds up what happened to the files of a run: the files that were
processed, the ones that changed, and the ones that failed.
-/

/-- One file whose content changed. -/
structure FileChange where
  path : String
  fixes : Int
  diff : String := ""
  deriving Repr, DecidableEq

/-- One file the run could not finish. -/
structure FileFailure where
  path : String
  fault : Fault
  deriving Repr, DecidableEq

/-- What is known about a processed file. -/
structure FileResult where
  path : String
  /-- The path below the root of the project. -/
  relative : String := ""
  lines : List Text := []
  categories : List Category := []
  report : Option Report := none
  changed : Bool := false
  /-- The file was known to be clean and not processed. -/
  cached : Bool := false
  deriving Repr, DecidableEq

namespace FileResult

/-- The path a file is reported under. -/
def displayPath
    (result : FileResult) :
    String :=
  if result.relative = "" then result.path else result.relative

/-- The records of an issue list. -/
def issueRecords
    (file : String)
    (issues : List Issue) :
    List Record :=
  issues.map fun issue =>
    { file := file
      line := Record.lineOf issue.line
      severity := .warning
      code := issue.kind.name
      message := issue.message }

/-- The unresolved issues of a file and the leftovers of the old dialect in it. -/
def records
    (result : FileResult) :
    List Record :=
  issueRecords result.displayPath ((result.report.map (·.issues)).getD []) ++
    Legacy.check result.displayPath result.lines result.categories

end FileResult

/-- Gather the records of a processed file. -/
def Collector.consume
    (collector : Collector)
    (result : FileResult) :
    Collector :=
  collector.addAll result.records

/-- The aggregate of a run. -/
structure Summary where
  scanned : Nat := 0
  modified : Nat := 0
  cached : Nat := 0
  fixes : Int := 0
  unresolved : Nat := 0
  ruleTotals : Tally := {}
  changes : List FileChange := []
  failures : List FileFailure := []
  results : List FileResult := []
  deriving Repr, DecidableEq

namespace Summary

/-- List rules before any file reports, so that a rule that never matches shows too. -/
def register
    (summary : Summary)
    (names : List String) :
    Summary :=
  { summary with ruleTotals := summary.ruleTotals.register names }

/-- Add what a report counts. -/
def addReport
    (summary : Summary)
    (report : Report) :
    Summary :=
  { summary with
    ruleTotals := summary.ruleTotals.merge report.counters
    fixes := summary.fixes + report.fixes
    unresolved := summary.unresolved + report.issues.length }

/-- Fold a finished file into the summary. -/
def merge
    (summary : Summary)
    (result : FileResult)
    (change : Option FileChange) :
    Summary :=
  let reported :=
    match result.report with
    | some report => summary.addReport report
    | none => summary
  { reported with
    scanned := summary.scanned + 1
    cached := summary.cached + (if result.cached then 1 else 0)
    modified := summary.modified + change.toList.length
    changes := summary.changes ++ change.toList
    results := summary.results ++ [result] }

/-- Record a file that failed. -/
def fail
    (summary : Summary)
    (path : String)
    (fault : Fault) :
    Summary :=
  { summary with
    scanned := summary.scanned + 1
    failures := summary.failures ++ [⟨path, fault⟩] }

/-- Order changes, failures and results by path. -/
def sort
    (summary : Summary) :
    Summary :=
  { summary with
    changes := sortByPath (·.path) summary.changes
    failures := sortByPath (·.path) summary.failures
    results := sortByPath (·.path) summary.results }

end Summary

end ScriptUplift
