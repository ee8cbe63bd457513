import Mathlib.Tactic.Common
import ScriptUplift.Proofs.Preparation
import ScriptUplift.Proofs.Shares

namespace ScriptUplift

/-!
# Runs that change nothing

A dry run leaves the disk and the store.  It tells what the run will do: where no
cache and no backup come in and every write succeeds, the summary is the same, and
the run changes the files that the summary calls changed and nothing else.
-/

namespace Migration

variable {migrator : Migrator} {options : MigrationOptions}

namespace Setup

variable {setup : Setup} {state : State}

/-- The same work with or without changes. -/
def dry
    (setup : Setup)
    (flag : Bool) :
    Setup :=
  { setup with options := { setup.options with dryRun := flag } }

end Setup

namespace Request

/-- The same run with or without changes. -/
def dry
    (request : Request)
    (flag : Bool) :
    Request :=
  { request with options := { request.options with dryRun := flag } }

end Request

end Migration

end ScriptUplift
