import ScriptUplift.State.Database
import ScriptUplift.State.Memory

namespace ScriptUplift

/-!
# State stores

A run keeps its state in memory or in a database, or in a store that is out of
order.
-/

/-- Where a run keeps its state. -/
inductive StateStore
  | memory (store : MemoryStore)
  | database (database : Database)
  /-- Every access fails. -/
  | broken
  deriving Repr, DecidableEq

namespace StateStore

/-- What is known about a file. -/
def get?
    (store : StateStore)
    (key : String) :
    Except StoreFault (Option FileRecord) :=
  match store with
  | .memory held => .ok (held.get? key)
  | .database held => held.get? key
  | .broken => .error .down

/-- Remember a clean file. -/
def put
    (store : StateStore)
    (key : String)
    (record : FileRecord) :
    Except StoreFault StateStore :=
  match store with
  | .memory held => .ok (.memory (held.put key record))
  | .database held => (held.put key record).map .database
  | .broken => .error .down

/-- Forget a file. -/
def delete
    (store : StateStore)
    (key : String) :
    Except StoreFault StateStore :=
  match store with
  | .memory held => .ok (.memory (held.delete key))
  | .database held => .ok (.database (held.delete key))
  | .broken => .error .down

/-- Add a run to the history. -/
def addRun
    (store : StateStore)
    (run : RunRecord) :
    Except StoreFault (Nat × StateStore) :=
  match store with
  | .memory held => .ok ((held.addRun run).map id .memory)
  | .database held => .ok ((held.addRun run).map id .database)
  | .broken => .error .down

/-- The runs, newest first. -/
def listRuns
    (store : StateStore)
    (limit : Int) :
    List RunRecord :=
  match store with
  | .memory held => held.listRuns limit
  | .database held => held.listRuns limit
  | .broken => []

end StateStore

end ScriptUplift
