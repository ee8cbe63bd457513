import ScriptUplift.Clock

namespace ScriptUplift

/-!
# Records of state

What is remembered between runs: the files that came out clean and the history of
runs.  Times and durations are nanoseconds; times count from the start of 1970.
-/

/-- The memory of a file that came out of a run with nothing left to do. -/
structure FileRecord where
  hash : String
  /-- The fingerprint of the configuration it was clean under. -/
  ruleHash : String
  checkedAt : Int
  deriving Repr, DecidableEq

/-- One entry of the run history. -/
structure RunRecord where
  id : Nat := 0
  started : Int
  duration : Int
  root : String
  dryRun : Bool
  scanned : Int
  modified : Int
  cached : Int
  fixes : Int
  unresolved : Int
  failures : Int
  deriving Repr, DecidableEq

/-- Why a store does not answer. -/
inductive StoreFault
  | keyRequired
  | keyTooLarge
  /-- What is stored under a key cannot be understood. -/
  | garbled (key : String)
  | down
  deriving Repr, DecidableEq

/-- The text of a failure. -/
def StoreFault.message : StoreFault → String
  | .keyRequired => "key required"
  | .keyTooLarge => "key too large"
  | .garbled key => "failed to decode file record " ++ key
  | .down => "store down"

namespace Clock

/-- The whole seconds of a time, as nanoseconds. -/
def toWholeSeconds
    (time : Int) :
    Int :=
  time.fdiv second * second

/-- The nanoseconds of a millisecond. -/
def millisecond : Int :=
  1000000

/-- The whole milliseconds of a duration, cut off toward zero, as nanoseconds. -/
def toWholeMilliseconds
    (duration : Int) :
    Int :=
  duration.tdiv millisecond * millisecond

end Clock

/-- A record with the precision that is stored. -/
def FileRecord.stored
    (record : FileRecord) :
    FileRecord :=
  { record with checkedAt := Clock.toWholeSeconds record.checkedAt }

/-- A record with the precision that is stored. -/
def RunRecord.stored
    (record : RunRecord) :
    RunRecord :=
  { record with
    started := Clock.toWholeSeconds record.started
    duration := Clock.toWholeMilliseconds record.duration }

/-- Cut a list at a limit; zero and below stand for no limit. -/
def takeLimit
    (limit : Int)
    (items : List α) :
    List α :=
  if limit ≤ 0 then items else items.take limit.toNat

end ScriptUplift
