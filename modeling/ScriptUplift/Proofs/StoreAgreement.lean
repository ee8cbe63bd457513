import Mathlib.Data.List.Basic
import Mathlib.Tactic.Common
import ScriptUplift.Proofs.BigEndian
import ScriptUplift.Proofs.SortedEntries
import ScriptUplift.State.Store

namespace ScriptUplift

/-!
# The stores answer alike

A store is used through calls, and each call has an answer.  Over every sequence
of calls a new database answers as a new store in memory does, up to the
precision of the times it keeps.  In memory the history is a list to which runs
are added at the end; in the database it is kept in the order of the bytes of
its keys, which is the order of the run numbers.
-/

namespace RunKey

/-- A key stands for the number it was made of. -/
theorem number_ofNumber
    {number : Nat}
    (inRange : number < 256 ^ width) :
    (ofNumber number).number = number :=
  Sha256.foldl_bigEndian_of_lt width inRange

/-- The keys of two numbers are in the order of the numbers. -/
theorem ofNumber_lt_iff
    {first second : Nat}
    (firstInRange : first < 256 ^ width)
    (secondInRange : second < 256 ^ width) :
    ofNumber first < ofNumber second ↔ first < second := by
  have byBytes :
      ofNumber first < ofNumber second ↔ first % 256 ^ width < second % 256 ^ width :=
    Sha256.bigEndian_lt_iff width first second
  rw [byBytes, Nat.mod_eq_of_lt firstInRange, Nat.mod_eq_of_lt secondInRange]

theorem ofNumber_inj
    {first second : Nat}
    (firstInRange : first < 256 ^ width)
    (secondInRange : second < 256 ^ width)
    (same : ofNumber first = ofNumber second) :
    first = second := by
  rw [← number_ofNumber firstInRange, same, number_ofNumber secondInRange]

end RunKey

namespace Entries

/-- A value under a key above all others comes last. -/
theorem insert_of_above
    {κ α : Type}
    [DecidableEq κ] [LT κ] [DecidableLT κ]
    {key : κ}
    {entries : List (κ × α)}
    (above : ∀ entry ∈ entries, key ≠ entry.1 ∧ ¬ key < entry.1)
    (value : α) :
    insert key value entries = entries ++ [(key, value)] := by
  induction entries with
  | nil =>
      rfl
  | cons entry rest inductionHypothesis =>
      obtain ⟨⟨different, notLess⟩, restAbove⟩ := List.forall_mem_cons.mp above
      rw [insert, if_neg different, if_neg notLess, inductionHypothesis restAbove]
      rfl

/-- A change of every value is made before or after a key is forgotten. -/
theorem map_erase
    {α β : Type}
    (change : α → β)
    (key : String)
    (entries : List (String × α)) :
    (erase key entries).map (fun entry => (entry.1, change entry.2)) =
      erase key (entries.map fun entry => (entry.1, change entry.2)) := by
  unfold erase
  rw [List.filter_map]
  rfl

end Entries

/-- A use of a state store. -/
inductive StoreCall
  | put (key : String) (record : FileRecord)
  | get (key : String)
  | delete (key : String)
  | addRun (run : RunRecord)
  | listRuns (limit : Int)
  deriving Repr, DecidableEq

/-- What a state store answers. -/
inductive StoreAnswer
  | done
  | file (found : Option FileRecord)
  | added (id : Nat)
  | runs (listed : List RunRecord)
  | refused (fault : StoreFault)
  deriving Repr, DecidableEq

namespace StoreCall

/-- The key a call is about can be written. -/
def Keyed : StoreCall → Prop
  | .put key _ | .get key | .delete key =>
      key ≠ "" ∧ key.utf8ByteSize ≤ Database.keyLimit
  | .addRun _ | .listRuns _ =>
      True

instance : DecidablePred Keyed
  | .put _ _ | .get _ | .delete _ => inferInstanceAs (Decidable (_ ∧ _))
  | .addRun _ | .listRuns _ => inferInstanceAs (Decidable True)

/-- The run a call adds. -/
def run? : StoreCall → Option RunRecord
  | .addRun run => some run
  | _ => none

/-- The history that calls write: their runs, numbered from one on. -/
def history
    (calls : List StoreCall) :
    List RunRecord :=
  ((calls.filterMap run?).zipIdx 1).map fun numbered => { numbered.1 with id := numbered.2 }

end StoreCall

/-- An answer with the precision that is stored. -/
def StoreAnswer.stored : StoreAnswer → StoreAnswer
  | .file found => .file (found.map FileRecord.stored)
  | .runs listed => .runs (listed.map RunRecord.stored)
  | answer => answer

namespace StateStore

/-- Answer a call; a refusal leaves the store as it is. -/
def answer
    (store : StateStore) :
    StoreCall → StoreAnswer × StateStore
  | .put key record =>
      match store.put key record with
      | .ok after => (.done, after)
      | .error fault => (.refused fault, store)
  | .get key =>
      match store.get? key with
      | .ok found => (.file found, store)
      | .error fault => (.refused fault, store)
  | .delete key =>
      match store.delete key with
      | .ok after => (.done, after)
      | .error fault => (.refused fault, store)
  | .addRun run =>
      match store.addRun run with
      | .ok (id, after) => (.added id, after)
      | .error fault => (.refused fault, store)
  | .listRuns limit =>
      (.runs (store.listRuns limit), store)

/-- The answers to calls, one after another. -/
def answers : StateStore → List StoreCall → List StoreAnswer
  | _, [] =>
      []
  | store, call :: rest =>
      (store.answer call).1 :: (store.answer call).2.answers rest

/-- A store after calls. -/
def after : StateStore → List StoreCall → StateStore
  | store, [] =>
      store
  | store, call :: rest =>
      (store.answer call).2.after rest

end StateStore

/-- A database that holds what a store in memory does, with the precision it stores. -/
structure Database.Mirrors
    (database : Database)
    (memory : MemoryStore) :
    Prop where
  files : database.files = memory.files.map fun entry => (entry.1, .sound entry.2.stored)
  runs :
    database.runs = memory.runs.map fun run =>
      (RunKey.ofNumber run.id, .sound { run.stored with id := 0 })
  sequence : database.sequence = memory.runs.length
  /-- The runs are numbered from one on, in the order in which they were added. -/
  numbered : memory.runs.map (·.id) = List.range' 1 memory.runs.length

namespace Database

theorem keyFault?_eq_none
    {key : String}
    (keyed : key ≠ "" ∧ key.utf8ByteSize ≤ keyLimit) :
    keyFault? key = none := by
  unfold keyFault?
  rw [if_neg keyed.1, if_neg (Nat.not_lt.mpr keyed.2)]

namespace Mirrors

variable {database : Database} {memory : MemoryStore}

theorem new :
    Mirrors {} {} :=
  ⟨rfl, rfl, rfl, rfl⟩

theorem get?_eq
    (mirrors : database.Mirrors memory)
    (key : String) :
    database.get? key = .ok ((memory.get? key).map FileRecord.stored) := by
  unfold get? MemoryStore.get?
  rw [mirrors.files,
    Entries.lookup_map (fun record : FileRecord => Stored.sound record.stored) key memory.files]
  cases memory.files.lookup key <;> rfl

/-- A run number of the history, and the next one, can be told apart by their keys. -/
theorem id_range
    (mirrors : database.Mirrors memory)
    {run : RunRecord}
    (member : run ∈ memory.runs) :
    1 ≤ run.id ∧ run.id ≤ memory.runs.length := by
  have isNumber : run.id ∈ List.range' 1 memory.runs.length := by
    rw [← mirrors.numbered]
    exact List.mem_map_of_mem member
  have range := List.mem_range'_1.mp isNumber
  omega

theorem put
    (mirrors : database.Mirrors memory)
    (key : String)
    (record : FileRecord) :
    Mirrors { database with files := Entries.insert key (.sound record.stored) database.files }
      (memory.put key record) where
  files := by
    rw [mirrors.files]
    exact (Entries.map_insert (fun record : FileRecord => Stored.sound record.stored)
      key record memory.files).symm
  runs := mirrors.runs
  sequence := mirrors.sequence
  numbered := mirrors.numbered

theorem delete
    (mirrors : database.Mirrors memory)
    (key : String) :
    (database.delete key).Mirrors (memory.delete key) where
  files := by
    unfold Database.delete MemoryStore.delete
    rw [mirrors.files]
    exact (Entries.map_erase (fun record : FileRecord => Stored.sound record.stored)
      key memory.files).symm
  runs := mirrors.runs
  sequence := mirrors.sequence
  numbered := mirrors.numbered

/-- A run gets the same number in both, and the key of the number is above all others. -/
theorem addRun
    (mirrors : database.Mirrors memory)
    (run : RunRecord)
    (room : memory.runs.length + 1 < 256 ^ RunKey.width) :
    (database.addRun run).1 = (memory.addRun run).1 ∧
      (database.addRun run).2.Mirrors (memory.addRun run).2 := by
  have sameNumber : (database.addRun run).1 = (memory.addRun run).1 :=
    congrArg (· + 1) mirrors.sequence
  have above : ∀ entry ∈ database.runs,
      RunKey.ofNumber (database.sequence + 1) ≠ entry.1 ∧
        ¬ RunKey.ofNumber (database.sequence + 1) < entry.1 := by
    rw [mirrors.runs, mirrors.sequence]
    intro entry member
    obtain ⟨known, isKnown, rfl⟩ := List.mem_map.mp member
    have range := mirrors.id_range isKnown
    have knownRoom : known.id < 256 ^ RunKey.width := by
      omega
    constructor
    · intro same
      have sameId := RunKey.ofNumber_inj room knownRoom same
      omega
    · rw [RunKey.ofNumber_lt_iff room knownRoom]
      omega
  refine ⟨sameNumber, mirrors.files, ?_, ?_, ?_⟩
  · unfold Database.addRun MemoryStore.addRun
    dsimp only
    rw [Entries.insert_of_above above, List.map_append, ← mirrors.runs, mirrors.sequence]
    rfl
  · unfold Database.addRun MemoryStore.addRun
    simp [mirrors.sequence]
  · unfold MemoryStore.addRun
    simp [mirrors.numbered, List.range'_concat, Nat.add_comm]

/-- A list of runs is the same, cut at the same limit. -/
theorem listRuns_eq
    (mirrors : database.Mirrors memory)
    (room : memory.runs.length < 256 ^ RunKey.width)
    (limit : Int) :
    database.listRuns limit = (memory.listRuns limit).map RunRecord.stored := by
  have read :
      (database.runs.reverse.filterMap fun entry =>
          entry.2.value?.map fun run => { run with id := entry.1.number }) =
        memory.runs.reverse.map RunRecord.stored := by
    rw [mirrors.runs, ← List.map_reverse, List.filterMap_map, ← List.filterMap_eq_map]
    apply List.filterMap_congr
    intro run member
    have range := mirrors.id_range (List.mem_reverse.mp member)
    have number : (RunKey.ofNumber run.id).number = run.id :=
      RunKey.number_ofNumber (by omega)
    simp only [Function.comp_apply, Stored.value?, Option.map_some, number]
    rfl
  unfold listRuns MemoryStore.listRuns
  rw [read]
  unfold takeLimit
  split
  · rfl
  · rw [List.map_take]

end Mirrors

end Database

namespace StateStore

variable {database : Database} {memory : MemoryStore}

/-- One call is answered alike, and the stores keep mirroring each other. -/
theorem answer_mirrors
    (mirrors : database.Mirrors memory)
    {call : StoreCall}
    (keyed : call.Keyed)
    (room : memory.runs.length + call.run?.toList.length < 256 ^ RunKey.width) :
    ((StateStore.database database).answer call).1 =
        ((StateStore.memory memory).answer call).1.stored ∧
      ∃ nextDatabase nextMemory,
        ((StateStore.database database).answer call).2 = .database nextDatabase ∧
          ((StateStore.memory memory).answer call).2 = .memory nextMemory ∧
          nextDatabase.Mirrors nextMemory ∧
          nextMemory.runs.length = memory.runs.length + call.run?.toList.length := by
  cases call with
  | put key record =>
      have accepted :
          database.put key record =
            .ok { database with
              files := Entries.insert key (.sound record.stored) database.files } := by
        unfold Database.put Database.store
        rw [Database.keyFault?_eq_none keyed]
      simp only [answer, put, accepted, Except.map]
      exact ⟨rfl, _, _, rfl, rfl, mirrors.put key record, rfl⟩
  | get key =>
      simp only [answer, get?, mirrors.get?_eq]
      exact ⟨rfl, _, _, rfl, rfl, mirrors, rfl⟩
  | delete key =>
      exact ⟨rfl, _, _, rfl, rfl, mirrors.delete key, rfl⟩
  | addRun run =>
      obtain ⟨sameNumber, added⟩ := mirrors.addRun run room
      refine ⟨congrArg StoreAnswer.added sameNumber, _, _, rfl, rfl, added, ?_⟩
      simp [StoreCall.run?]
  | listRuns limit =>
      refine ⟨?_, _, _, rfl, rfl, mirrors, rfl⟩
      exact congrArg StoreAnswer.runs (mirrors.listRuns_eq room limit)

/-- Calls are answered alike by stores that mirror each other. -/
theorem answers_mirror
    (mirrors : database.Mirrors memory)
    {calls : List StoreCall}
    (keyed : ∀ call ∈ calls, call.Keyed)
    (room :
      memory.runs.length + (calls.filterMap StoreCall.run?).length < 256 ^ RunKey.width) :
    (StateStore.database database).answers calls =
      ((StateStore.memory memory).answers calls).map StoreAnswer.stored := by
  induction calls generalizing database memory with
  | nil =>
      rfl
  | cons call rest inductionHypothesis =>
      obtain ⟨callKeyed, restKeyed⟩ := List.forall_mem_cons.mp keyed
      have split :
          ((call :: rest).filterMap StoreCall.run?).length =
            call.run?.toList.length + (rest.filterMap StoreCall.run?).length := by
        rw [List.filterMap_cons]
        cases call.run? with
        | none =>
            simp
        | some run =>
            simp [Nat.add_comm]
      rw [split] at room
      obtain ⟨sameAnswer, nextDatabase, nextMemory, databaseNext, memoryNext, next, grown⟩ :=
        answer_mirrors mirrors callKeyed (by omega)
      simp only [answers, List.map_cons, sameAnswer, databaseNext, memoryNext]
      rw [inductionHypothesis next restKeyed (by omega)]

/-- A store in memory refuses no call, and adds its run at the end under the next number. -/
theorem answer_memory
    (memory : MemoryStore)
    (call : StoreCall) :
    (∀ fault, ((StateStore.memory memory).answer call).1 ≠ .refused fault) ∧
      ∃ next,
        ((StateStore.memory memory).answer call).2 = .memory next ∧
          next.runs =
            memory.runs ++
              (call.run?.toList.zipIdx (memory.runs.length + 1)).map fun numbered =>
                { numbered.1 with id := numbered.2 } := by
  cases call with
  | put key record =>
      exact ⟨nofun, _, rfl, (List.append_nil _).symm⟩
  | get key =>
      exact ⟨nofun, _, rfl, (List.append_nil _).symm⟩
  | delete key =>
      exact ⟨nofun, _, rfl, (List.append_nil _).symm⟩
  | addRun run =>
      exact ⟨nofun, _, rfl, rfl⟩
  | listRuns limit =>
      exact ⟨nofun, _, rfl, (List.append_nil _).symm⟩

/-- Over calls a store in memory refuses none and keeps the history they write. -/
theorem answers_memory
    (memory : MemoryStore)
    (calls : List StoreCall) :
    (∀ fault, .refused fault ∉ (StateStore.memory memory).answers calls) ∧
      ∃ last,
        (StateStore.memory memory).after calls = .memory last ∧
          last.runs =
            memory.runs ++
              ((calls.filterMap StoreCall.run?).zipIdx (memory.runs.length + 1)).map
                fun numbered => { numbered.1 with id := numbered.2 } := by
  induction calls generalizing memory with
  | nil =>
      exact ⟨fun _ => List.not_mem_nil, memory, rfl, (List.append_nil _).symm⟩
  | cons call rest inductionHypothesis =>
      obtain ⟨accepts, next, isNext, nextRuns⟩ := answer_memory memory call
      obtain ⟨restAccepts, last, isLast, lastRuns⟩ := inductionHypothesis next
      refine ⟨?_, last, ?_, ?_⟩
      · intro fault refused
        rw [answers, isNext] at refused
        rcases List.mem_cons.mp refused with isFirst | inRest
        · exact accepts fault isFirst.symm
        · exact restAccepts fault inRest
      · rw [after, isNext, isLast]
      · rw [lastRuns, nextRuns, List.filterMap_cons]
        cases call.run? with
        | none =>
            simp
        | some run =>
            simp [List.zipIdx_cons]

/--
Over every sequence of calls under keys that can be written, a new database
answers as a new store in memory does, in the precision it stores.  No call is
refused, and the runs are listed from the newest on, numbered in the order in
which they were added, and cut at the limit.  Run numbers have sixty-four bits.
-/
theorem database_answers_as_memory
    (calls : List StoreCall)
    (keyed : ∀ call ∈ calls, call.Keyed)
    (numbered : (calls.filterMap StoreCall.run?).length < 2 ^ 64) :
    (StateStore.database {}).answers calls =
        ((StateStore.memory {}).answers calls).map StoreAnswer.stored ∧
      (∀ fault, .refused fault ∉ (StateStore.memory {}).answers calls) ∧
      ∀ limit,
        ((StateStore.memory {}).after calls).listRuns limit =
          takeLimit limit (StoreCall.history calls).reverse := by
  have room :
      ({} : MemoryStore).runs.length + (calls.filterMap StoreCall.run?).length <
        256 ^ RunKey.width := by
    simpa [RunKey.width] using numbered
  obtain ⟨accepted, last, isLast, lastRuns⟩ := answers_memory {} calls
  refine ⟨answers_mirror .new keyed room, accepted, ?_⟩
  intro limit
  have wholeHistory : last.runs = StoreCall.history calls := lastRuns
  rw [isLast, ← wholeHistory]
  rfl

/-- The third of three runs is listed first, and the database keeps whole milliseconds of it. -/
theorem database_lists_third_run_first :
    let run : RunRecord :=
      { started := 1700000000999999999, duration := 1500999999, root := "/game", dryRun := false,
        scanned := 4, modified := 1, cached := 0, fixes := 7, unresolved := 0, failures := 0 }
    let calls : List StoreCall :=
      [.put "a.gd" ⟨"h", "r", 1700000000000000001⟩, .get "a.gd", .addRun run, .addRun run,
       .delete "a.gd", .addRun run, .get "a.gd", .listRuns 2]
    let kept := { run with started := 1700000000000000000, duration := 1500000000 }
    (∀ call ∈ calls, call.Keyed) ∧
      (calls.filterMap StoreCall.run?).length < 2 ^ 64 ∧
      (StateStore.database {}).answers calls =
        [.done, .file (some ⟨"h", "r", 1700000000000000000⟩), .added 1, .added 2, .done, .added 3,
         .file none, .runs [{ kept with id := 3 }, { kept with id := 2 }]] := by
  intro run calls kept
  have keyed : ∀ call ∈ calls, call.Keyed := by
    decide +kernel
  have numbered : (calls.filterMap StoreCall.run?).length < 2 ^ 64 := by
    decide
  refine ⟨keyed, numbered, ?_⟩
  rw [(database_answers_as_memory calls keyed numbered).1]
  decide +kernel

end StateStore

end ScriptUplift
