import ScriptUplift.Command.Session
import ScriptUplift.Diagnostics.Printer

namespace ScriptUplift

/-!
# The command that checks

A dry run of which only the findings are told.
-/

/-- The forms of a report. -/
inductive ReportFormat
  | text
  | json
  deriving Repr, DecidableEq

/-- Read the name of a form. -/
def ReportFormat.ofName? : String → Option ReportFormat
  | "text" => some .text
  | "json" => some .json
  | _ => none

namespace Session

/-- The record of a file that failed. -/
def failureRecord
    (failure : FileFailure) :
    Record where
  file := failure.path
  severity := .error
  code := failure.fault.kind.name
  message := failure.fault.message

/-- The line that sums up a check. -/
def checkSummary
    (summary : Summary)
    (collector : Collector) :
    String :=
  "\n" ++ toString summary.scanned ++ " files checked: " ++
    toString (collector.count .error) ++ " errors, " ++
    toString (collector.count .warning) ++ " warnings, " ++
    toString (collector.count .info) ++ " info\n"

/-- The report of a check. -/
def checkText
    (summary : Summary)
    (collector : Collector) :
    ReportFormat → String
  | .text =>
      String.join (collector.records.map (Record.text false)) ++ checkSummary summary collector
  | .json =>
      Document.text collector.records

/-- The code of a check: findings count like unresolved issues. -/
def checkCode
    (summary : Summary)
    (collector : Collector) :
    ExitCode :=
  match ExitCode.ofSummary summary with
  | .ok => if collector.hasProblems then .unresolved else .ok
  | code => code

/-- Prepare a check. -/
def prepareCheck
    (session : Session)
    (flags : CheckFlags)
    (disk : Disk) :
    Except CommandFault (ReportFormat × Migrator) := do
  match ReportFormat.ofName? flags.format with
  | none => throw (.format flags.format)
  | some format =>
      let minSeverity ← (Severity.ofName flags.minSeverity).mapError .severity
      return (format, ← session.migrator [] { minSeverity } disk)

/-- Check the files of a project. -/
def check
    (session : Session)
    (flags : CheckFlags)
    (files : List String)
    (disk : Disk) :
    Outcome :=
  match session.prepareCheck flags disk with
  | .error fault =>
      .stopped disk fault
  | .ok (format, migrator) =>
      let ending := Migration.run migrator
        { root := session.root, files, dryRun := true } disk (.memory {})
      let log := session.shown ending.state.log
      match ending.fault with
      | some fault =>
          { Outcome.stopped disk (.run fault) with log }
      | none =>
          let summary := ending.state.summary
          let collector :=
            ending.state.collector.addAll (summary.failures.map failureRecord)
          { disk, log
            output := checkText summary collector format
            code := checkCode summary collector }

end Session

end ScriptUplift
