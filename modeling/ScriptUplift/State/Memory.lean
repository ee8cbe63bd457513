import ScriptUplift.Entries
import ScriptUplift.State.Record

namespace ScriptUplift

/-!
# The store in memory

A store that forgets everything at the end of the process.
-/

/-- The clean files and the runs, oldest first. -/
structure MemoryStore where
  files : List (String × FileRecord) := []
  runs : List RunRecord := []
  deriving Repr, DecidableEq

namespace MemoryStore

/-- What is known about a file. -/
def get?
    (store : MemoryStore)
    (key : String) :
    Option FileRecord :=
  store.files.lookup key

/-- Remember a clean file. -/
def put
    (store : MemoryStore)
    (key : String)
    (record : FileRecord) :
    MemoryStore :=
  { store with files := Entries.insert key record store.files }

/-- Forget a file. -/
def delete
    (store : MemoryStore)
    (key : String) :
    MemoryStore :=
  { store with files := Entries.erase key store.files }

/-- Add a run to the history under the next number. -/
def addRun
    (store : MemoryStore)
    (run : RunRecord) :
    Nat × MemoryStore :=
  let id := store.runs.length + 1
  (id, { store with runs := store.runs ++ [{ run with id }] })

/-- The runs, newest first. -/
def listRuns
    (store : MemoryStore)
    (limit : Int) :
    List RunRecord :=
  takeLimit limit store.runs.reverse

end MemoryStore

end ScriptUplift
