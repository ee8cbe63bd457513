namespace ScriptUplift

/-!
# Faults

A fault is a cause with the contexts it was met in.  Its message names the
outermost context first.
-/

/-- What went wrong with a file. -/
inductive FaultKind
  | read
  | write
  /-- A stage was run in a state it does not accept. -/
  | precondition
  | unknown
  deriving Repr, DecidableEq

namespace FaultKind

/-- The name a kind is reported under. -/
def name : FaultKind → String
  | .read => "read"
  | .write => "write"
  | .precondition => "precondition"
  | .unknown => "unknown"

/-- Find a kind by its number. -/
def ofNumber
    (number : Int) :
    FaultKind :=
  if number = 0 then .read
  else if number = 1 then .write
  else if number = 2 then .precondition
  else .unknown

end FaultKind

/-- A cause of failure. -/
inductive Fault
  | plain (message : String)
  /-- A stage does not accept the state it was given. -/
  | contract
  /-- The run was cancelled. -/
  | cancelled
  /-- The run took too long. -/
  | deadline
  /-- The failure belongs to one file. -/
  | onFile (kind : FaultKind) (path : String) (cause : Fault)
  /-- The failure was met in some context. -/
  | during (context : String) (cause : Fault)
  /-- The failure has details. -/
  | because (cause : Fault) (details : String)
  deriving Repr, DecidableEq

namespace Fault

/-- The text of a failure. -/
def message : Fault → String
  | .plain message => message
  | .contract => "precondition violation"
  | .cancelled => "context canceled"
  | .deadline => "context deadline exceeded"
  | .onFile kind path cause => kind.name ++ " error on " ++ path ++ ": " ++ cause.message
  | .during context cause => context ++ ": " ++ cause.message
  | .because cause details => cause.message ++ ": " ++ details

/-- The kind of a failure that belongs to a file. -/
def fileKind? : Fault → Option FaultKind
  | .onFile kind _ _ => some kind
  | .during _ cause => cause.fileKind?
  | .because cause _ => cause.fileKind?
  | _ => none

/-- The kind of a failure; one that belongs to no file violates a contract. -/
def kind
    (fault : Fault) :
    FaultKind :=
  fault.fileKind?.getD .precondition

/-- Whether a failure was caused by a stage that does not accept its state. -/
def isContract : Fault → Bool
  | .contract => true
  | .onFile _ _ cause => cause.isContract
  | .during _ cause => cause.isContract
  | .because cause _ => cause.isContract
  | _ => false

/-- Whether a failure was caused by the end of the run. -/
def isInterruption : Fault → Bool
  | .cancelled => true
  | .deadline => true
  | .onFile _ _ cause => cause.isInterruption
  | .during _ cause => cause.isInterruption
  | .because cause _ => cause.isInterruption
  | _ => false

end Fault

end ScriptUplift
