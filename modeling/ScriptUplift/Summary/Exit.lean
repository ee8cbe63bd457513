import ScriptUplift.Summary.Basic

namespace ScriptUplift

/-!
# Exit codes

The status of a run: failures to read or write outrank violated contracts, which
outrank unresolved issues.
-/

/-- How a process ends. -/
inductive ExitCode
  | ok
  | unresolved
  | inputOutput
  | contract
  deriving Repr, DecidableEq

namespace ExitCode

/-- The number a process ends with. -/
def number : ExitCode → Nat
  | .ok => 0
  | .unresolved => 1
  | .inputOutput => 2
  | .contract => 3

/-- The code of a run that stopped with a fault. -/
def ofFault
    (fault : Fault) :
    ExitCode :=
  if fault.isInterruption then .inputOutput
  else
    match fault.fileKind? with
    | some .precondition => .contract
    | some _ => .inputOutput
    | none => .contract

/-- Whether a failure is one of reading or writing. -/
def isInputOutput
    (failure : FileFailure) :
    Bool :=
  failure.fault.kind == .read || failure.fault.kind == .write

/-- The code of a run that went to its end. -/
def ofSummary
    (summary : Summary) :
    ExitCode :=
  if summary.failures.any isInputOutput then .inputOutput
  else if !summary.failures.isEmpty then .contract
  else if 0 < summary.unresolved then .unresolved
  else .ok

/-- The code of a run. -/
def ofRun
    (summary : Summary) :
    Option Fault → ExitCode
  | some fault => ofFault fault
  | none => ofSummary summary

end ExitCode

end ScriptUplift
