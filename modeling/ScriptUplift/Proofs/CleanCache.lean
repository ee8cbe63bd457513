import Mathlib.Tactic.Common
import ScriptUplift.Project.Migration
import ScriptUplift.Proofs.CleanPass

namespace ScriptUplift

/-!
# What an answer from the cache stands for

A record of the store holds the hash of what a pass without issues wrote.  Every
step of every run keeps this, so that content answered from the cache is what
such a pass left, unless two texts share a hash.  Whether the answer is right is
another matter: it is exactly when a further pass would leave that content alone.
-/

/-- The hash of what a pass without issues left of a file. -/
def Pipeline.Vouches
    (pipeline : Pipeline)
    (relative hash : String) :
    Prop :=
  ∃ before left,
    pipeline.run relative before = (left, .done) ∧
      left.report.issues = [] ∧
      hash = fingerprintOf left.render

namespace StateStore

/-- Every record under the rules is vouched for. -/
def Vouched
    (store : StateStore)
    (pipeline : Pipeline)
    (ruleHash : String) :
    Prop :=
  ∀ key record, store.get? key = .ok (some record) → record.ruleHash = ruleHash →
    pipeline.Vouches key record.hash

/-- A store that took a record answers with its hashes, and under other keys as before. -/
theorem get?_put
    {store after : StateStore}
    {key : String}
    {record : FileRecord}
    (stored : store.put key record = .ok after) :
    ∃ kept : FileRecord,
      kept.hash = record.hash ∧
        kept.ruleHash = record.ruleHash ∧
        ∀ other, after.get? other = if other = key then .ok (some kept) else store.get? other := by
  cases store with
  | memory held =>
      obtain rfl := Except.ok.inj stored
      refine ⟨record, rfl, rfl, ?_⟩
      intro other
      by_cases same : other = key
      · subst same
        simp [get?, MemoryStore.get?, MemoryStore.put, Entries.lookup_insert_self]
      · simp [get?, MemoryStore.get?, MemoryStore.put, Entries.lookup_insert_of_ne same, same]
  | database held =>
      unfold put Database.put Database.store at stored
      dsimp only at stored
      split at stored
      · simp [Except.map] at stored
      · obtain rfl := Except.ok.inj stored
        refine ⟨record.stored, rfl, rfl, ?_⟩
        intro other
        by_cases same : other = key
        · subst same
          simp [get?, Database.get?, Entries.lookup_insert_self]
        · simp [get?, Database.get?, Entries.lookup_insert_of_ne same, same]
  | broken =>
      simp [put] at stored

theorem get?_addRun
    {store after : StateStore}
    {run : RunRecord}
    {id : Nat}
    (added : store.addRun run = .ok (id, after))
    (key : String) :
    after.get? key = store.get? key := by
  cases store with
  | memory held =>
      obtain ⟨_, rfl⟩ := Prod.mk.inj (Except.ok.inj added)
      rfl
  | database held =>
      obtain ⟨_, rfl⟩ := Prod.mk.inj (Except.ok.inj added)
      rfl
  | broken =>
      simp [addRun] at added

theorem Vouched.put
    {store after : StateStore}
    {pipeline : Pipeline}
    {ruleHash key : String}
    {record : FileRecord}
    (vouched : store.Vouched pipeline ruleHash)
    (own : pipeline.Vouches key record.hash)
    (stored : store.put key record = .ok after) :
    after.Vouched pipeline ruleHash := by
  obtain ⟨kept, sameHash, _, answers⟩ := get?_put stored
  intro other found isFound sameRules
  rw [answers] at isFound
  split at isFound
  · rename_i same
    obtain rfl : kept = found := by
      simpa using isFound
    rw [same, sameHash]
    exact own
  · exact vouched other found isFound sameRules

end StateStore

namespace Migration

variable {migrator : Migrator} {options : MigrationOptions}

theorem remember_vouched
    {file : FoundFile}
    {report : Report}
    {output : Text}
    {store : StateStore}
    (vouched : store.Vouched migrator.pipeline migrator.ruleHash)
    (own : report.issues = [] → migrator.pipeline.Vouches file.relative (fingerprintOf output)) :
    (remember migrator options file report output store).1.Vouched
      migrator.pipeline migrator.ruleHash := by
  unfold remember
  split
  · rename_i asked
    have noIssue : report.issues = [] := by
      simp only [Bool.and_eq_true, List.isEmpty_iff] at asked
      exact asked.2
    split
    · rename_i stored
      exact vouched.put (own noIssue) stored
    · exact vouched
  · exact vouched

/-- A pass over a file fails and leaves the store, or its result is remembered and not cached. -/
theorem transform_cases
    (migrator : Migrator)
    (options : MigrationOptions)
    (file : FoundFile)
    (content : Text)
    (disk : Disk)
    (store : StateStore)
    (log : List LogEvent) :
    let processed := transform migrator options file content disk store log
    (processed.store = store ∧ ∃ fault, processed.outcome = .error fault) ∨
      ∃ source,
        migrator.pipeline.run file.relative content = (source, .done) ∧
          processed.store =
            (remember migrator options file source.report source.render store).1 ∧
          ∃ result change, processed.outcome = .ok (result, change) ∧ result.cached = false := by
  unfold transform
  split
  · rename_i source passed
    unfold finish
    dsimp only
    split
    · exact .inl ⟨rfl, _, rfl⟩
    · exact .inr ⟨source, passed, rfl, _, _, rfl, rfl⟩
  · exact .inl ⟨rfl, _, rfl⟩
  · exact .inl ⟨rfl, _, rfl⟩

theorem exists_of_askCache_eq_clean
    {store : StateStore}
    {relative hash : String}
    (clean : askCache migrator store relative hash = .clean) :
    ∃ record,
      store.get? relative = .ok (some record) ∧
        record.hash = hash ∧
        record.ruleHash = migrator.ruleHash := by
  unfold askCache at clean
  split at clean
  · cases clean
  · cases clean
  · rename_i record found
    split at clean
    · rename_i same
      simp only [Bool.and_eq_true, decide_eq_true_eq] at same
      exact ⟨record, found, same⟩
    · cases clean

/--
Processing a file fails and leaves the store, answers from a record with the hash
of the content and the rules, or takes the content through a pass.
-/
theorem process_cases
    (migrator : Migrator)
    (options : MigrationOptions)
    (file : FoundFile)
    (disk : Disk)
    (store : StateStore) :
    let processed := process migrator options file disk store
    (processed.store = store ∧ ∃ fault, processed.outcome = .error fault) ∨
      (∃ content record,
        disk.readText file.place.path = .ok content ∧
          store.get? file.relative = .ok (some record) ∧
          record.hash = fingerprintOf content ∧
          record.ruleHash = migrator.ruleHash ∧
          processed.store = store ∧
          processed.outcome = .ok (cachedResult migrator file, none)) ∨
      ∃ content source,
        migrator.pipeline.run file.relative content = (source, .done) ∧
          processed.store =
            (remember migrator options file source.report source.render store).1 ∧
          ∃ result change, processed.outcome = .ok (result, change) ∧ result.cached = false := by
  unfold process
  cases read : disk.readText file.place.path with
  | error fault =>
      exact .inl ⟨rfl, _, rfl⟩
  | ok content =>
      have passes := transform_cases migrator options file content disk store
      dsimp only
      split
      · split
        · rename_i answer
          obtain ⟨record, found, sameHash, sameRules⟩ := exists_of_askCache_eq_clean answer
          exact .inr (.inl ⟨content, record, rfl, found, sameHash, sameRules, rfl, rfl⟩)
        · exact (passes []).imp_right fun passed => .inr ⟨content, passed⟩
        · exact (passes _).imp_right fun passed => .inr ⟨content, passed⟩
      · exact (passes []).imp_right fun passed => .inr ⟨content, passed⟩

/-- Processing a file keeps every record vouched for. -/
theorem process_vouched
    {file : FoundFile}
    {disk : Disk}
    {store : StateStore}
    (vouched : store.Vouched migrator.pipeline migrator.ruleHash) :
    (process migrator options file disk store).store.Vouched
      migrator.pipeline migrator.ruleHash := by
  rcases process_cases migrator options file disk store with
    ⟨same, _⟩ | ⟨_, _, _, _, _, _, same, _⟩ | ⟨content, source, passed, remembered, _⟩
  · rwa [same]
  · rwa [same]
  · rw [remembered]
    apply remember_vouched vouched
    intro noIssue
    exact ⟨content, source, passed, noIssue, rfl⟩

/-- An answer from the cache is about content with a hash that is vouched for. -/
theorem vouches_of_cached
    {file : FoundFile}
    {disk : Disk}
    {store : StateStore}
    (vouched : store.Vouched migrator.pipeline migrator.ruleHash)
    {result : FileResult}
    {change : Option FileChange}
    (answered : (process migrator options file disk store).outcome = .ok (result, change))
    (cached : result.cached = true) :
    ∃ content,
      disk.readText file.place.path = .ok content ∧
        migrator.pipeline.Vouches file.relative (fingerprintOf content) := by
  rcases process_cases migrator options file disk store with
    ⟨_, fault, failed⟩ | ⟨content, record, read, found, sameHash, sameRules, _, _⟩ |
      ⟨_, _, _, _, passed, passedChange, answer, notCached⟩
  · rw [failed] at answered
    cases answered
  · refine ⟨content, read, ?_⟩
    rw [← sameHash]
    exact vouched file.relative record found sameRules
  · rw [answer] at answered
    obtain ⟨rfl, _⟩ := Prod.mk.inj (Except.ok.inj answered)
    rw [notCached] at cached
    cases cached

@[simp] theorem store_absorb
    (state : State)
    (relative : String)
    (processed : Processed) :
    (state.absorb relative processed).store = processed.store := by
  unfold State.absorb
  dsimp only
  split <;> rfl

theorem processAll_vouched
    {total : Nat}
    {state : State}
    {files : List FoundFile}
    (vouched : state.store.Vouched migrator.pipeline migrator.ruleHash) :
    (processAll migrator options total state files).store.Vouched
      migrator.pipeline migrator.ruleHash := by
  induction files generalizing state with
  | nil =>
      exact vouched
  | cons file rest inductionHypothesis =>
      unfold processAll
      split
      · exact vouched
      · apply inductionHypothesis
        simpa using process_vouched vouched

theorem givenFiles_cons
    (root : Place)
    (state : State)
    (path : String)
    (rest : List String) :
    givenFiles root state (path :: rest) =
      match givenFile state.disk root path with
      | .ok file =>
          ((givenFiles root state rest).1, file :: (givenFiles root state rest).2)
      | .error cause =>
          givenFiles root
            { state.tell (failureEvent path (.onFile .read path cause)) with
              summary := state.summary.fail path (.onFile .read path cause) }
            rest := by
  rfl

theorem store_givenFiles
    (root : Place)
    (state : State)
    (paths : List String) :
    (givenFiles root state paths).1.store = state.store := by
  induction paths generalizing state with
  | nil =>
      rfl
  | cons path rest inductionHypothesis =>
      rw [givenFiles_cons]
      split
      · exact inductionHypothesis state
      · exact inductionHypothesis _

theorem store_candidates
    {root : Place}
    {state found : State}
    {files : List FoundFile}
    (collected : candidates migrator options root state = .ok (found, files)) :
    found.store = state.store := by
  unfold candidates at collected
  split at collected
  · split at collected
    · obtain ⟨rfl, _⟩ := Prod.mk.inj (Except.ok.inj collected)
      rfl
    · cases collected
  · have same := congrArg (·.1.store) (Except.ok.inj collected)
    rw [← same]
    exact store_givenFiles root state options.files

theorem store_backUp
    {root : Place}
    {state ready : State}
    {fault : Option Fault}
    (backed : backUp migrator options root state = (ready, fault)) :
    ready.store = state.store := by
  have same : (backUp migrator options root state).1.store = state.store := by
    unfold backUp
    split
    · dsimp only
      split <;> rfl
    · rfl
  rwa [backed] at same

/-- Adding a run to the history keeps every record vouched for. -/
theorem record_vouched
    {root : Place}
    {state : State}
    {pipeline : Pipeline}
    {ruleHash : String}
    (vouched : state.store.Vouched pipeline ruleHash) :
    (record migrator options root state).store.Vouched pipeline ruleHash := by
  unfold record
  split
  · exact vouched
  · split
    · rename_i added
      intro key found isFound
      rw [StateStore.get?_addRun added] at isFound
      exact vouched key found isFound
    · exact vouched

/-- One run: what it works with, what it is asked to do, and the disk it finds. -/
structure Request where
  migrator : Migrator
  options : MigrationOptions
  disk : Disk

namespace Request

/-- The root of a run. -/
def root
    (request : Request) :
    Place :=
  Path.place request.disk.workDir request.options.root

/-- The state a run comes to its files with, and the files, unless it ends before. -/
def prepared?
    (request : Request)
    (store : StateStore) :
    Option (State × List FoundFile) :=
  let start : State :=
    { disk := request.disk
      store := store
      summary := Summary.register {} request.migrator.pipeline.counters
      collector := request.migrator.collector }
  match candidates request.migrator request.options request.root start with
  | .error _ =>
      none
  | .ok (found, files) =>
      let collected := found.tell
        { level := .debug
          message := "candidates collected"
          fields := [("files", .number files.length), ("root", .text request.root.path)] }
      match backUp request.migrator request.options request.root collected with
      | (_, some _) =>
          none
      | (ready, none) =>
          some (ready, files)

/-- The store a run leaves. -/
def storeAfter
    (request : Request)
    (store : StateStore) :
    StateStore :=
  (run request.migrator request.options request.disk store).state.store

/-- The store that runs leave, one after the other. -/
def storeAfterAll
    (requests : List Request)
    (store : StateStore) :
    StateStore :=
  requests.foldl (fun held request => request.storeAfter held) store

/-- A run comes to a file: the files before it are processed and the run is not cancelled. -/
def Visits
    (request : Request)
    (store : StateStore)
    (state : State)
    (file : FoundFile) :
    Prop :=
  ∃ ready earlier later,
    request.prepared? store = some (ready, earlier ++ file :: later) ∧
      state =
        processAll request.migrator request.options (earlier ++ file :: later).length ready
          earlier ∧
      request.options.cancelAfter.any (· ≤ state.progress.length) = false

/-- The state a run begins with. -/
def start
    (request : Request)
    (store : StateStore) :
    State where
  disk := request.disk
  store := store
  summary := Summary.register {} request.migrator.pipeline.counters
  collector := request.migrator.collector

/-- The state of a run that found its files, once it has reported them. -/
def collected
    (request : Request)
    (found : State)
    (files : List FoundFile) :
    State :=
  found.tell
    { level := .debug
      message := "candidates collected"
      fields := [("files", .number files.length), ("root", .text request.root.path)] }

/-- What a run comes to its files with, if it comes to them, and the state it ends in. -/
inductive Course
    (request : Request)
    (store : StateStore) :
    Option (State × List FoundFile) → State → Prop
  | notFound
      {fault : Fault}
      (failed : candidates request.migrator request.options request.root (request.start store) =
        .error fault) :
      Course request store none (request.start store)
  | notBackedUp
      {found failed : State}
      {files : List FoundFile}
      {fault : Fault}
      (isCollected : candidates request.migrator request.options request.root
        (request.start store) = .ok (found, files))
      (backed : backUp request.migrator request.options request.root
        (request.collected found files) = (failed, some fault)) :
      Course request store none failed
  | processed
      {found ready : State}
      {files : List FoundFile}
      (isCollected : candidates request.migrator request.options request.root
        (request.start store) = .ok (found, files))
      (backed : backUp request.migrator request.options request.root
        (request.collected found files) = (ready, none)) :
      Course request store (some (ready, files))
        (let processed := processAll request.migrator request.options files.length ready files
        record request.migrator request.options request.root
          { processed with summary := processed.summary.sort })

/-- Every run takes such a course. -/
theorem exists_course
    (request : Request)
    (store : StateStore) :
    ∃ ended, request.Course store (request.prepared? store) ended ∧
      (run request.migrator request.options request.disk store).state = ended := by
  refine ⟨_, ?_, rfl⟩
  have atRoot : Path.place request.disk.workDir request.options.root = request.root :=
    rfl
  have isStart :
      ({ disk := request.disk
         store := store
         summary := Summary.register {} request.migrator.pipeline.counters
         collector := request.migrator.collector } : State) = request.start store :=
    rfl
  unfold prepared? run
  dsimp only
  rw [atRoot, isStart]
  cases isCollected : candidates request.migrator request.options request.root
      (request.start store) with
  | error fault =>
      exact .notFound isCollected
  | ok pair =>
      obtain ⟨found, files⟩ := pair
      dsimp only
      rw [← collected]
      cases backed : backUp request.migrator request.options request.root
          (request.collected found files) with
      | mk last fault =>
          cases fault with
          | none =>
              exact .processed isCollected backed
          | some fault =>
              exact .notBackedUp isCollected backed

/-- What a run leaves that came to its files. -/
theorem run_eq_of_prepared
    {request : Request}
    {store : StateStore}
    {ready : State}
    {files : List FoundFile}
    (prepared : request.prepared? store = some (ready, files)) :
    let processed := processAll request.migrator request.options files.length ready files
    (run request.migrator request.options request.disk store).state =
      record request.migrator request.options request.root
        { processed with summary := processed.summary.sort } := by
  obtain ⟨ended, course, isEnd⟩ := request.exists_course store
  rw [prepared] at course
  cases course with
  | processed =>
      exact isEnd

theorem store_of_prepared
    {request : Request}
    {store : StateStore}
    {ready : State}
    {files : List FoundFile}
    (prepared : request.prepared? store = some (ready, files)) :
    ready.store = store := by
  obtain ⟨_, course, _⟩ := request.exists_course store
  rw [prepared] at course
  cases course with
  | processed isCollected backed =>
      exact (store_backUp backed).trans (store_candidates isCollected)

/-- A run that does not come to its files leaves the store. -/
theorem storeAfter_of_not_prepared
    {request : Request}
    {store : StateStore}
    (notPrepared : request.prepared? store = none) :
    request.storeAfter store = store := by
  obtain ⟨ended, course, isEnd⟩ := request.exists_course store
  rw [notPrepared] at course
  rw [storeAfter, isEnd]
  cases course with
  | notFound =>
      rfl
  | notBackedUp isCollected backed =>
      exact (store_backUp backed).trans (store_candidates isCollected)

/-- A run keeps every record vouched for. -/
theorem storeAfter_vouched
    {request : Request}
    {store : StateStore}
    (vouched : store.Vouched request.migrator.pipeline request.migrator.ruleHash) :
    (request.storeAfter store).Vouched request.migrator.pipeline request.migrator.ruleHash := by
  cases prepared : request.prepared? store with
  | none =>
      rwa [storeAfter_of_not_prepared prepared]
  | some reached =>
      obtain ⟨ready, files⟩ := reached
      unfold storeAfter
      rw [run_eq_of_prepared prepared]
      apply record_vouched
      apply processAll_vouched
      rwa [store_of_prepared prepared]

theorem storeAfterAll_vouched
    {requests : List Request}
    {store : StateStore}
    {pipeline : Pipeline}
    {ruleHash : String}
    (sameRules :
      ∀ request ∈ requests,
        request.migrator.pipeline = pipeline ∧ request.migrator.ruleHash = ruleHash)
    (vouched : store.Vouched pipeline ruleHash) :
    (storeAfterAll requests store).Vouched pipeline ruleHash := by
  unfold storeAfterAll
  induction requests generalizing store with
  | nil =>
      exact vouched
  | cons request rest inductionHypothesis =>
      obtain ⟨⟨rfl, rfl⟩, restRules⟩ := List.forall_mem_cons.mp sameRules
      exact inductionHypothesis restRules (storeAfter_vouched vouched)

theorem Visits.vouched
    {request : Request}
    {store : StateStore}
    {state : State}
    {file : FoundFile}
    (visits : request.Visits store state file)
    (vouched : store.Vouched request.migrator.pipeline request.migrator.ruleHash) :
    state.store.Vouched request.migrator.pipeline request.migrator.ruleHash := by
  obtain ⟨ready, earlier, later, prepared, rfl, _⟩ := visits
  apply processAll_vouched
  rwa [store_of_prepared prepared]

end Request

/-- Different texts with one hash. -/
def Collide
    (first second : Text) :
    Prop :=
  first ≠ second ∧ fingerprintOf first = fingerprintOf second

/--
Content that a run answers from the cache, after any runs with the same pipeline
and rules on a store that held no record, is what a pass without issues left
under that name, unless two texts collide.  The answer is right exactly when the
content is clean and mixes no line breaks.
-/
theorem cached_content_left_by_pass_and_right_iff_clean
    {config : Config}
    {pipeline : Pipeline}
    (accepted : Pipeline.ofConfig config = .ok pipeline)
    {ruleHash : String}
    {store : StateStore}
    (noRecord : ∀ key record, store.get? key ≠ .ok (some record))
    (requests : List Request)
    (last : Request)
    (sameRules :
      ∀ request ∈ requests ++ [last],
        request.migrator.pipeline = pipeline ∧ request.migrator.ruleHash = ruleHash)
    {state : State}
    {file : FoundFile}
    (visits : last.Visits (Request.storeAfterAll requests store) state file)
    {result : FileResult}
    {change : Option FileChange}
    (answered :
      (process last.migrator last.options file state.disk state.store).outcome =
        .ok (result, change))
    (cached : result.cached = true) :
    ∃ content,
      state.disk.readText file.place.path = .ok content ∧
        (∃ before left,
          pipeline.run file.relative before = (left, .done) ∧
            left.report.issues = [] ∧
            (left.render = content ∨ Collide left.render content)) ∧
        (pipeline.LeavesAlone file.relative content ↔
          (Pipeline.classified config file.relative content).Clean config ∧
            Source.mixesEndings content = false) := by
  obtain ⟨earlierRules, lastRules⟩ := List.forall_mem_append.mp sameRules
  obtain ⟨rfl, rfl⟩ := lastRules last (List.mem_singleton.mpr rfl)
  have initially : store.Vouched last.migrator.pipeline last.migrator.ruleHash :=
    fun key record found => absurd found (noRecord key record)
  have vouched := visits.vouched (Request.storeAfterAll_vouched earlierRules initially)
  obtain ⟨content, read, before, left, passed, noIssue, sameHash⟩ :=
    vouches_of_cached vouched answered cached
  refine ⟨content, read, ⟨before, left, passed, noIssue, ?_⟩,
    Pipeline.leavesAlone_iff_clean config file.relative content accepted⟩
  by_cases same : left.render = content
  · exact .inl same
  · exact .inr ⟨same, sameHash.symm⟩

/-- A run over the scripts of a disk by default settings, with the cache. -/
def Request.byDefault
    (disk : Disk) :
    Request where
  migrator :=
    { pipeline := ⟨Pipeline.stagesOf .default, Pipeline.countersOf .default⟩
      walker := { includes := Walker.defaultIncludes, excludeDirs := [], excludeFiles := [] }
      writer := .atomic
      ruleHash := "rules"
      now := 0 }
  options := { root := "/", useCache := true }
  disk := disk

/-- A disk with one script. -/
def scriptDisk
    (content : String) :
    Disk where
  root := .directory [("x.gd", .file (.text content.toList) Disk.defaultMode)]

/-- An exported field is uplifted by the first run and rightly answered from the cache by the second. -/
theorem second_run_answers_uplifted_field :
    let first := Request.byDefault (scriptDisk "export var a = 1\n")
    let second :=
      Request.byDefault (run first.migrator first.options first.disk (.memory {})).state.disk
    ∃ state file result change,
      second.Visits (Request.storeAfterAll [first] (.memory {})) state file ∧
        (process second.migrator second.options file state.disk state.store).outcome =
          .ok (result, change) ∧
        result.cached = true ∧
        ∃ content before left,
          state.disk.readText file.place.path = .ok content ∧
            second.migrator.pipeline.run file.relative before = (left, .done) ∧
            left.report.issues = [] ∧
            (left.render = content ∨ Collide left.render content) := by
  intro first second
  have visited :
      ((second.prepared? (Request.storeAfterAll [first] (.memory {}))).map fun reached =>
        reached.2.map fun file =>
          (process second.migrator second.options file reached.1.disk
            reached.1.store).outcome.toOption.map (·.1.cached)) = some [some true] := by
    decide +kernel
  obtain ⟨⟨ready, files⟩, prepared, answers⟩ := Option.map_eq_some_iff.mp visited
  obtain ⟨file, rest, rfl, answer, noMore⟩ := List.map_eq_cons_iff.mp answers
  obtain ⟨⟨result, change⟩, answered, cached⟩ := Option.map_eq_some_iff.mp answer
  have outcome :
      (process second.migrator second.options file ready.disk ready.store).outcome =
        .ok (result, change) := by
    cases ended : (process second.migrator second.options file ready.disk ready.store).outcome with
    | error fault =>
        simp [ended, Except.toOption] at answered
    | ok pair =>
        simpa [ended, Except.toOption] using answered
  have visits : second.Visits (Request.storeAfterAll [first] (.memory {})) ready file :=
    ⟨ready, [], rest, prepared, rfl, rfl⟩
  have accepted : Pipeline.ofConfig .default = .ok second.migrator.pipeline := rfl
  have noRecord (key : String) (record : FileRecord) :
      (StateStore.memory {}).get? key ≠ .ok (some record) := by
    simp [StateStore.get?, MemoryStore.get?]
  have sameRules :
      ∀ request ∈ [first] ++ [second],
        request.migrator.pipeline = second.migrator.pipeline ∧
          request.migrator.ruleHash = second.migrator.ruleHash := by
    simp [first, second, Request.byDefault]
  obtain ⟨content, read, ⟨before, left, passed, noIssue, same⟩, _⟩ :=
    cached_content_left_by_pass_and_right_iff_clean accepted noRecord [first] second sameRules
      visits outcome cached
  exact ⟨ready, file, result, change, visits, outcome, cached, content, before, left, read, passed,
    noIssue, same⟩

/--
Awaiting the signal called `connect` leaves content that is remembered as clean:
the second run answers from the cache, though a pass would change the content.
-/
theorem second_run_answers_content_with_call_left :
    let first :=
      Request.byDefault
        (scriptDisk "func f():\n\tyield(self, \"connect\")(\"a\", self, \"b\")")
    let firstEnd := run first.migrator first.options first.disk (.memory {})
    let second := Request.byDefault firstEnd.state.disk
    let secondEnd := run second.migrator second.options second.disk firstEnd.state.store
    let left := "func f():\n\tawait connect(\"a\", self, \"b\")".toList
    (firstEnd.state.disk.readText "/x.gd").toOption = some left ∧
      secondEnd.state.summary.cached = 1 ∧
      secondEnd.state.summary.modified = 0 ∧
      ¬ second.migrator.pipeline.LeavesAlone "x.gd" left := by
  intro first firstEnd second secondEnd left
  have ends :
      (firstEnd.state.disk.readText "/x.gd").toOption = some left ∧
        secondEnd.state.summary.cached = 1 ∧
        secondEnd.state.summary.modified = 0 := by
    decide +kernel
  refine ⟨ends.1, ends.2.1, ends.2.2, ?_⟩
  rintro ⟨source, passed, written, _⟩
  have changes : (second.migrator.pipeline.run "x.gd" left).1.render ≠ left := by
    decide +kernel
  rw [passed] at changes
  exact changes written

end Migration

end ScriptUplift
