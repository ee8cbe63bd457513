import Mathlib.Data.List.Basic
import Mathlib.Tactic.Common
import ScriptUplift.Proofs.Preparation
import ScriptUplift.Proofs.WorkerPool

namespace ScriptUplift

/-!
# Every interleaving of the workers

However the steps of the workers fall, a pool stays `Sound`: every file holds what it
held or what it will hold, whatever else is new on the disk is a temporary file of one
worker, and the store, the summary and the records hold the contributions of the files
that are through, in the order in which they came.  Once all files are done, nothing of
the order shows: the pool has left what the files leave one after another.
-/

namespace Migration

theorem Apart.perm
    {disk : Disk}
    {files others : List FoundFile}
    (apart : Apart disk files)
    (perm : others.Perm files) :
    Apart disk others where
  there := fun file member => apart.there file (perm.mem_iff.mp member)
  ways := apart.ways.of_subset perm.subset
  places := (perm.map _).nodup_iff.mpr apart.places
  names := (perm.map _).nodup_iff.mpr apart.names

namespace Pool

/-- A value holds what the files that are through contribute, in some order. -/
def Accumulates
    {α : Type}
    (through : Phase → Bool)
    (contribute : α → FoundFile → α)
    (start : α)
    (tasks : List Task)
    (value : α) :
    Prop :=
  ∃ order : List FoundFile,
    order.Perm ((tasks.filter (through ·.phase)).map (·.file)) ∧
      value = order.foldl contribute start

/-- Every file holds what it held or what it will hold, and what is new is temporary. -/
structure DiskSound
    (setup : Setup)
    (start : State)
    (tasks : List Task)
    (disk : Disk) :
    Prop where
  ordered : disk.Ordered
  workDir : disk.workDir = start.disk.workDir
  own : ∀ task ∈ tasks,
    disk.kindAt? (start.disk.seat task.file.place) = setup.kindIn task.file start task.phase
  there : ∀ task ∈ tasks, ∀ temporary ∈ temporary? start.disk task.file task.phase,
    ∃ content mode, disk.kindAt? temporary = some (.file content mode)
  new : ∀ task ∈ tasks, ∀ temporary ∈ temporary? start.disk task.file task.phase,
    start.disk.kindAt? temporary = none
  unshared : ∀ task ∈ tasks, ∀ other ∈ tasks,
    ∀ temporary ∈ temporary? start.disk task.file task.phase,
      temporary ∈ temporary? start.disk other.file other.phase → task = other
  elsewhere : ∀ place,
    (∀ task ∈ tasks, place ≠ start.disk.seat task.file.place ∧
      place ∉ temporary? start.disk task.file task.phase) →
      disk.kindAt? place = start.disk.kindAt? place

/-- What holds of a pool however the steps of its workers fall. -/
structure Sound
    (setup : Setup)
    (start : State)
    (pool : Pool) :
    Prop where
  apart : Apart start.disk (pool.tasks.map (·.file))
  fits : ∀ task ∈ pool.tasks, setup.Fits task.file start task.phase
  disk : DiskSound setup start pool.tasks pool.state.disk
  store : Accumulates Phase.remembered (setup.rememberTimeless start) start.store.timeless
    pool.tasks pool.state.store.timeless
  summary : Accumulates Phase.counted (setup.countIn start) start.summary pool.tasks
    pool.state.summary
  collector : Accumulates Phase.gathered (setup.gatherIn start) start.collector pool.tasks
    pool.state.collector

namespace Accumulates

variable {α : Type} {through : Phase → Bool} {contribute : α → FoundFile → α} {start value left : α}
  {task : Task} {tasks others : List Task} {next : Phase}

theorem perm
    (accumulates : Accumulates through contribute start tasks value)
    (perm : tasks.Perm others) :
    Accumulates through contribute start others value := by
  obtain ⟨order, isOrder, isValue⟩ := accumulates
  exact ⟨order, isOrder.trans ((perm.filter _).map _), isValue⟩

theorem step
    (accumulates : Accumulates through contribute start (task :: others) value)
    (contributes : Contributes (through task.phase) (through next) (contribute · task.file) value
      left) :
    Accumulates through contribute start (⟨task.file, next⟩ :: others) left := by
  obtain ⟨order, isOrder, isValue⟩ := accumulates
  rcases contributes with ⟨same, rfl⟩ | ⟨notYet, now, rfl⟩
  · refine ⟨order, ?_, isValue⟩
    cases isThrough : through task.phase with
    | false =>
        simpa [isThrough, same] using isOrder
    | true =>
        simpa [isThrough, same] using isOrder
  · refine ⟨order ++ [task.file], ?_, ?_⟩
    · have others : order.Perm ((others.filter (through ·.phase)).map (·.file)) := by
        simpa [notYet] using isOrder
      simpa [now] using (List.perm_append_singleton _ _).trans (others.cons task.file)
    · rw [isValue, List.foldl_append]
      rfl

/-- When all files are through, their contributions are all there. -/
theorem all
    (accumulates : Accumulates through contribute start tasks value)
    (done : ∀ task ∈ tasks, through task.phase = true) :
    ∃ order : List FoundFile,
      order.Perm (tasks.map (·.file)) ∧ value = order.foldl contribute start := by
  obtain ⟨order, isOrder, isValue⟩ := accumulates
  rw [List.filter_eq_self.mpr done] at isOrder
  exact ⟨order, isOrder, isValue⟩

end Accumulates

namespace DiskSound

variable {setup : Setup} {start : State} {task : Task} {tasks others : List Task} {next : Phase}
  {disk after : Disk}

theorem perm
    (sound : DiskSound setup start tasks disk)
    (perm : tasks.Perm others) :
    DiskSound setup start others disk where
  ordered := sound.ordered
  workDir := sound.workDir
  own := fun task member => sound.own task (perm.mem_iff.mpr member)
  there := fun task member => sound.there task (perm.mem_iff.mpr member)
  new := fun task member => sound.new task (perm.mem_iff.mpr member)
  unshared := fun task member other otherMember =>
    sound.unshared task (perm.mem_iff.mpr member) other (perm.mem_iff.mpr otherMember)
  elsewhere := fun place outside =>
    sound.elsewhere place fun task member => outside task (perm.mem_iff.mp member)

/-- Something stands where the path of a file led at the start. -/
theorem exists_kind
    (sound : DiskSound setup start tasks disk)
    (member : task ∈ tasks)
    (there : HasEntry start.disk task.file) :
    ∃ kind, disk.kindAt? (start.disk.seat task.file.place) = some kind := by
  obtain ⟨kind, entry⟩ := there
  rw [sound.own task member]
  unfold Setup.kindIn
  split
  · exact ⟨_, Setup.kindAfter_of_leaf entry.found⟩
  · exact ⟨kind, entry.found⟩

/-- No temporary file takes the place of a file. -/
theorem ne_seat
    (sound : DiskSound setup start tasks disk)
    (member : task ∈ tasks)
    {temporary : Place}
    (isTemporary : temporary ∈ temporary? start.disk task.file task.phase)
    {file : FoundFile}
    (there : HasEntry start.disk file) :
    temporary ≠ start.disk.seat file.place := by
  rintro rfl
  obtain ⟨_, entry⟩ := there
  exact absurd (entry.found.symm.trans (sound.new task member _ isTemporary)) (by simp)

/-- Where nothing stands, nothing stood. -/
theorem absent
    (sound : DiskSound setup start tasks disk)
    (there : ∀ task ∈ tasks, HasEntry start.disk task.file)
    {place : Place}
    (nothing : disk.kindAt? place = none) :
    start.disk.kindAt? place = none ∧
      ∀ task ∈ tasks, place ≠ start.disk.seat task.file.place ∧
        place ∉ temporary? start.disk task.file task.phase := by
  have outside : ∀ task ∈ tasks,
      place ≠ start.disk.seat task.file.place ∧
        place ∉ temporary? start.disk task.file task.phase := by
    intro task member
    constructor
    · rintro rfl
      obtain ⟨_, found⟩ := sound.exists_kind member (there task member)
      rw [nothing] at found
      cases found
    · intro isTemporary
      obtain ⟨_, _, found⟩ := sound.there task member _ isTemporary
      rw [nothing] at found
      cases found
  exact ⟨(sound.elsewhere place outside).symm.trans nothing, outside⟩

section

variable
  (ordered : start.disk.Ordered)
  (sound : DiskSound setup start (task :: others) disk)
  (apart : Apart start.disk ((task :: others).map (·.file)))
  (moved : DiskStep (start.disk.seat task.file.place) (setup.kindIn task.file start next)
    (temporary? start.disk task.file task.phase) (temporary? start.disk task.file next) disk after)

include sound apart moved

/-- Where a step leaves its temporary file, nothing stood, and no other file has a part in it. -/
theorem absent_of_next
    {temporary : Place}
    (isNext : temporary ∈ temporary? start.disk task.file next) :
    start.disk.kindAt? temporary = none ∧
      ∀ other ∈ others,
        temporary ≠ start.disk.seat other.file.place ∧
          temporary ∉ temporary? start.disk other.file other.phase := by
  have there : ∀ some ∈ task :: others, HasEntry start.disk some.file := fun some member =>
    apart.there some.file (List.mem_map_of_mem member)
  obtain ⟨_, _, different⟩ := apart.cons
  have isTask : task ∈ task :: others := List.mem_cons_self
  rcases moved.made temporary isNext with isHeld | nothing
  · -- it was there before the step
    refine ⟨sound.new task isTask temporary isHeld, fun other member => ⟨?_, ?_⟩⟩
    · exact sound.ne_seat isTask isHeld (there other (List.mem_cons_of_mem task member))
    · intro shared
      obtain rfl := sound.unshared task isTask other (List.mem_cons_of_mem task member) temporary
        isHeld shared
      exact (different task.file (List.mem_map_of_mem member)).1 rfl
  · obtain ⟨absent, outside⟩ := sound.absent there nothing
    exact ⟨absent, fun other member => outside other (List.mem_cons_of_mem task member)⟩

include ordered

/-- A step with one file leaves the other files and their temporary files alone. -/
theorem untouched
    {other : Task}
    (member : other ∈ others)
    {place : Place}
    (isOwn : place = start.disk.seat other.file.place ∨
      place ∈ temporary? start.disk other.file other.phase) :
    after.kindAt? place = disk.kindAt? place := by
  have there : ∀ some ∈ task :: others, HasEntry start.disk some.file := fun some member =>
    apart.there some.file (List.mem_map_of_mem member)
  have isTask : task ∈ task :: others := List.mem_cons_self
  have isOther : other ∈ task :: others := List.mem_cons_of_mem task member
  have differentFile : other.file.place ≠ task.file.place :=
    (apart.cons.2.2 other.file (List.mem_map_of_mem member)).1
  have different := apart.seat_ne ordered (List.mem_map_of_mem isTask)
    (List.mem_map_of_mem isOther) differentFile
  refine moved.elsewhere place ?_ ?_ ?_
  · rintro rfl
    rcases isOwn with same | isTemporary
    · exact different same.symm
    · exact sound.ne_seat isOther isTemporary (there task isTask) rfl
  · intro isHeld
    rcases isOwn with rfl | isTemporary
    · exact sound.ne_seat isTask isHeld (there other isOther) rfl
    · obtain rfl := sound.unshared task isTask other isOther place isHeld isTemporary
      exact differentFile rfl
  · intro isNext
    obtain ⟨notOwn, notTemporary⟩ := (sound.absent_of_next apart moved isNext).2 other member
    exact isOwn.elim notOwn notTemporary

/-- A step with one file keeps the disk sound. -/
theorem step :
    DiskSound setup start (⟨task.file, next⟩ :: others) after := by
  have isTask : task ∈ task :: others := List.mem_cons_self
  have isOther {other : Task} (member : other ∈ others) : other ∈ task :: others :=
    List.mem_cons_of_mem task member
  have apartFrom {other : Task} (member : other ∈ others) {temporary : Place}
      (isNext : temporary ∈ temporary? start.disk task.file next) :
      temporary ∉ temporary? start.disk other.file other.phase :=
    ((sound.absent_of_next apart moved isNext).2 other member).2
  exact
    { ordered := moved.ordered
      workDir := moved.workDir.trans sound.workDir
      own := by
        refine List.forall_mem_cons.mpr ⟨moved.own, fun other member => ?_⟩
        rw [sound.untouched ordered apart moved member (.inl rfl), sound.own other (isOther member)]
      there := by
        refine List.forall_mem_cons.mpr ⟨moved.there, fun other member temporary isTemporary => ?_⟩
        rw [sound.untouched ordered apart moved member (.inr isTemporary)]
        exact sound.there other (isOther member) temporary isTemporary
      new := by
        refine List.forall_mem_cons.mpr ⟨fun _ isNext => (sound.absent_of_next apart moved isNext).1, ?_⟩
        exact fun other member => sound.new other (isOther member)
      unshared := by
        refine List.forall_mem_cons.mpr ⟨?_, fun first isFirst => ?_⟩
        · refine List.forall_mem_cons.mpr ⟨fun _ _ _ => rfl, ?_⟩
          exact fun other member _ isNext shared => absurd shared (apartFrom member isNext)
        · refine List.forall_mem_cons.mpr ⟨?_, fun second isSecond => ?_⟩
          · exact fun _ isTemporary isNext => absurd isTemporary (apartFrom isFirst isNext)
          · exact sound.unshared first (isOther isFirst) second (isOther isSecond)
      elsewhere := by
        intro place outside
        obtain ⟨⟨notOwn, notNext⟩, notOthers⟩ := List.forall_mem_cons.mp outside
        by_cases isHeld : place ∈ temporary? start.disk task.file task.phase
        · rcases moved.gone place isHeld with isNext | nothing
          · exact absurd isNext notNext
          · rw [nothing, sound.new task isTask place isHeld]
        · rw [moved.elsewhere place notOwn isHeld notNext]
          exact sound.elsewhere place (List.forall_mem_cons.mpr ⟨⟨notOwn, isHeld⟩, notOthers⟩) }

end

end DiskSound

namespace Sound

variable {setup : Setup} {start state after : State} {task : Task} {tasks others : List Task}
  {files : List FoundFile} {next : Phase} {pool reached : Pool} {jobs : Nat}

theorem perm
    (sound : Sound setup start ⟨tasks, state⟩)
    (perm : tasks.Perm others) :
    Sound setup start ⟨others, state⟩ where
  apart := sound.apart.perm (perm.symm.map _)
  fits := fun task member => sound.fits task (perm.mem_iff.mpr member)
  disk := sound.disk.perm perm
  store := sound.store.perm perm
  summary := sound.summary.perm perm
  collector := sound.collector.perm perm

theorem of_start
    (ordered : start.disk.Ordered)
    (apart : Apart start.disk files) :
    Sound setup start (Pool.start start files) := by
  have sameFiles : (Pool.start start files).tasks.map (·.file) = files := by
    simp [Pool.start, Function.comp_def]
  have nothing {α : Type} {through : Phase → Bool} {contribute : α → FoundFile → α} {value : α}
      (notYet : through .waiting = false) :
      Accumulates through contribute value (Pool.start start files).tasks value := by
    refine ⟨[], ?_, rfl⟩
    simp [Pool.start, List.filter_map, notYet]
  have waits {task : Task} (member : task ∈ (Pool.start start files).tasks) :
      task.phase = .waiting := by
    obtain ⟨file, _, rfl⟩ := List.mem_map.mp member
    rfl
  have noTemporary {task : Task} (member : task ∈ (Pool.start start files).tasks)
      {place : Place} :
      place ∉ temporary? start.disk task.file task.phase := by
    rw [waits member]
    exact Option.not_mem_none place
  exact
    { apart := sameFiles.symm ▸ apart
      fits := by
        intro task member
        rw [waits member]
        trivial
      disk :=
        { ordered := ordered
          workDir := rfl
          own := by
            intro task member
            rw [waits member]
            rfl
          there := fun _ member _ isTemporary => absurd isTemporary (noTemporary member)
          new := fun _ member _ isTemporary => absurd isTemporary (noTemporary member)
          unshared := fun _ member _ _ _ isTemporary => absurd isTemporary (noTemporary member)
          elsewhere := fun _ _ => rfl }
      store := nothing rfl
      summary := nothing rfl
      collector := nothing rfl }

theorem get?_foldl_rememberTimeless
    {key : String}
    (different : ∀ file ∈ files, key ≠ file.relative)
    (store : StateStore) :
    (files.foldl (setup.rememberTimeless start) store).get? key = store.get? key :=
  Setup.get?_foldl
    (fun file member _ => Forecast.get?_remember_of_ne (different file member) ..) store

/--
Until a worker has a temporary file, the path of its file leads to what it led to at the
start: the other workers touch no place that it passes.
-/
theorem kindFound_eq
    (sound : Sound setup start ⟨task :: others, state⟩)
    (ordered : start.disk.Ordered)
    (unsettled : task.phase.settled = false)
    (noTemporary : task.phase.number? = none) :
    state.disk.kindFound task.file.place.path = start.disk.kindFound task.file.place.path := by
  have isTask : task ∈ task :: others := List.mem_cons_self
  have isFile {some : Task} (member : some ∈ task :: others) :
      some.file ∈ (task :: others).map (·.file) :=
    List.mem_map_of_mem member
  have there := sound.apart.there task.file (isFile isTask)
  refine (Disk.kindFound_congr ordered sound.disk.ordered there.named ?_).1
  intro passed isPassed
  by_cases own : passed = start.disk.seat task.file.place
  · rw [own, sound.disk.own task isTask, Setup.kindIn, unsettled, if_neg Bool.false_ne_true]
  · refine sound.disk.elsewhere passed (List.forall_mem_cons.mpr ⟨⟨own, ?_⟩, ?_⟩)
    · unfold temporary?
      rw [noTemporary]
      exact Option.not_mem_none passed
    · intro other member
      have isOther : other ∈ task :: others := List.mem_cons_of_mem task member
      obtain ⟨_, _, different⟩ := sound.apart.cons
      obtain ⟨notPlace, notFree⟩ := sound.apart.ways task.file (isFile isTask) passed isPassed
        other.file (isFile isOther) (different other.file (List.mem_map_of_mem member)).1
      refine ⟨notPlace, fun isTemporary => ?_⟩
      obtain ⟨number, _, same⟩ := Option.mem_map.mp isTemporary
      exact notFree number same.symm (sound.disk.new other isOther passed isTemporary)

/-- Until the file holds what it will hold, its path leads to the entry it led to at the start. -/
theorem entry
    (sound : Sound setup start ⟨task :: others, state⟩)
    (ordered : start.disk.Ordered)
    (unsettled : task.phase.settled = false) :
    ∃ kind, state.disk.Entry task.file.place (start.disk.seat task.file.place) kind := by
  have isTask : task ∈ task :: others := List.mem_cons_self
  have isFile {some : Task} (member : some ∈ task :: others) :
      some.file ∈ (task :: others).map (·.file) :=
    List.mem_map_of_mem member
  obtain ⟨kind, entry⟩ := sound.apart.there task.file (isFile isTask)
  refine ⟨kind, entry.congr ordered sound.disk.ordered fun passed isPassed => ?_⟩
  by_cases own : passed = start.disk.seat task.file.place
  · rw [own, sound.disk.own task isTask, Setup.kindIn, unsettled, if_neg Bool.false_ne_true]
  · -- something stood there, so it is no temporary file
    obtain ⟨_, found⟩ := entry.exists_kind_of_mem_entryWay ordered passed isPassed
    have notTemporary {some : Task} (member : some ∈ task :: others) :
        passed ∉ temporary? start.disk some.file some.phase := fun isTemporary =>
      absurd (found.symm.trans (sound.disk.new some member passed isTemporary)) (by simp)
    refine sound.disk.elsewhere passed
      (List.forall_mem_cons.mpr ⟨⟨own, notTemporary isTask⟩, fun other member => ?_⟩)
    have isOther : other ∈ task :: others := List.mem_cons_of_mem task member
    obtain ⟨_, _, different⟩ := sound.apart.cons
    exact ⟨sound.apart.aside (isFile isTask) (isFile isOther)
      (different other.file (List.mem_map_of_mem member)).1 passed
      (List.mem_append_left _ isPassed), notTemporary isOther⟩

/-- A worker finds everything as it needs it. -/
theorem stands
    (sound : Sound setup start ⟨task :: others, state⟩)
    (ordered : start.disk.Ordered)
    {number : Nat}
    (unused : task.phase.creates = true → state.disk.taken
      (Disk.temporaryPath (Path.parent task.file.place.path) (Path.base task.file.place.path)
        number) = false) :
    setup.Stands task.file start state task.phase number where
  ordered := sound.disk.ordered
  own := sound.disk.own task List.mem_cons_self
  there := sound.disk.there task List.mem_cons_self
  entry := sound.entry ordered
  free := by
    intro creates
    obtain ⟨kind, entry⟩ := sound.entry ordered (Phase.settled_of_creates creates)
    obtain ⟨_, _, _, _, _, _, _, isTaken⟩ := entry.exists_temporary sound.disk.ordered number
    rw [isTaken] at unused
    simpa using unused creates
  found := sound.kindFound_eq ordered
  answer := by
    intro notYet hash
    -- the store has changed under the names of other files only
    obtain ⟨order, isOrder, isStore⟩ := sound.store
    rw [List.filter_cons_of_neg (by simpa using notYet)] at isOrder
    obtain ⟨_, _, different⟩ := sound.apart.cons
    rw [← askCache_timeless, isStore, ← askCache_timeless setup.migrator start.store]
    refine askCache_congr (get?_foldl_rememberTimeless ?_ _) hash
    intro file member
    obtain ⟨other, isOther, rfl⟩ := List.mem_map.mp (isOrder.mem_iff.mp member)
    exact (different other.file (List.mem_map_of_mem (List.mem_filter.mp isOther).1)).2.symm
  fits := sound.fits task List.mem_cons_self

theorem advance
    (sound : Sound setup start ⟨task :: others, state⟩)
    (ordered : start.disk.Ordered)
    (advances : setup.Advances task.file start state task.phase after next) :
    Sound setup start ⟨⟨task.file, next⟩ :: others, after⟩ where
  apart := sound.apart
  fits := List.forall_mem_cons.mpr ⟨advances.fits, (List.forall_mem_cons.mp sound.fits).2⟩
  disk := sound.disk.step ordered sound.apart advances.disk
  store := sound.store.step advances.store
  summary := sound.summary.step advances.summary
  collector := sound.collector.step advances.collector

end Sound

/-- A bound on the number of steps that are left. -/
def remaining
    (pool : Pool) :
    Nat :=
  (pool.tasks.map (·.phase.remaining)).sum

variable {setup : Setup} {start : State} {files : List FoundFile} {pool reached : Pool} {jobs : Nat}

/-- A step keeps a pool sound and brings it nearer to its end. -/
theorem Step.sound
    (step : Step setup jobs pool reached)
    (ordered : start.disk.Ordered)
    (sound : Sound setup start pool) :
    Sound setup start reached ∧
      reached.tasks.map (·.file) = pool.tasks.map (·.file) ∧
      reached.remaining < pool.remaining := by
  cases step with
  | @step earlier later task state choice unfinished _ unused =>
      have front := sound.perm List.perm_middle
      have advances := Setup.advance_advances (earlier ++ task :: later).length choice unfinished
        (front.stands ordered unused)
      refine ⟨(front.advance ordered advances).perm List.perm_middle.symm, by simp, ?_⟩
      have fewer := advances.remaining
      simp only [remaining, List.map_append, List.map_cons, List.sum_append, List.sum_cons]
      omega

theorem Reaches.sound
    (reaches : Reaches setup jobs pool reached)
    (ordered : start.disk.Ordered)
    (sound : Sound setup start pool) :
    Sound setup start reached ∧ reached.tasks.map (·.file) = pool.tasks.map (·.file) := by
  induction reaches with
  | refl =>
      exact ⟨sound, rfl⟩
  | tail _ step inductionHypothesis =>
      obtain ⟨stepSound, sameFiles, _⟩ := step.sound ordered inductionHypothesis.1
      exact ⟨stepSound, sameFiles.trans inductionHypothesis.2⟩

/-- A worker that is admitted can take a step: some number for a temporary file is free. -/
theorem Sound.exists_step_of_admitted
    {earlier later : List Task}
    {task : Task}
    {state : State}
    (ordered : start.disk.Ordered)
    (sound : Sound setup start ⟨earlier ++ task :: later, state⟩)
    (unfinished : task.phase ≠ .finished)
    (admitted : task.phase = .waiting →
      (∀ other ∈ earlier, other.phase ≠ .waiting) ∧
        busy ⟨earlier ++ task :: later, state⟩ < jobs) :
    ∃ next, Step setup jobs ⟨earlier ++ task :: later, state⟩ next := by
  refine ⟨_, .step (setup.firstChoice task.file state) unfinished admitted fun creates => ?_⟩
  obtain ⟨kind, entry⟩ :=
    (sound.perm List.perm_middle).entry ordered (Phase.settled_of_creates creates)
  exact setup.unused_firstChoice sound.disk.ordered entry

/-- As long as a file is not done, some worker can take a step. -/
theorem Sound.exists_step
    (ordered : start.disk.Ordered)
    (sound : Sound setup start pool)
    (someone : 0 < jobs)
    (unfinished : ¬ pool.Finished) :
    ∃ next, Step setup jobs pool next := by
  classical
  obtain ⟨tasks, state⟩ := pool
  by_cases working : ∃ task ∈ tasks, task.phase ≠ .waiting ∧ task.phase ≠ .finished
  · obtain ⟨task, member, notWaiting, notFinished⟩ := working
    obtain ⟨earlier, later, rfl⟩ := List.append_of_mem member
    exact sound.exists_step_of_admitted ordered notFinished fun waits => absurd waits notWaiting
  · -- nobody is busy, so the first file that waits is admitted
    have idle {task : Task} (member : task ∈ tasks) :
        task.phase = .waiting ∨ task.phase = .finished := by
      by_contra neither
      exact working ⟨task, member, not_or.mp neither⟩
    have noneBusy : busy ⟨tasks, state⟩ = 0 := by
      refine List.countP_eq_zero.mpr fun task member => ?_
      rcases idle member with waits | done
      · simp [waits]
      · simp [done]
    have waiting : (tasks.find? (·.phase = .waiting)).isSome = true := by
      rw [List.find?_isSome]
      by_contra nobody
      refine unfinished fun task member => (idle member).resolve_left fun waits => ?_
      exact nobody ⟨task, member, by simpa using waits⟩
    obtain ⟨task, isFirst⟩ := Option.isSome_iff_exists.mp waiting
    obtain ⟨waits, earlier, later, rfl, noneBefore⟩ := List.find?_eq_some_iff_append.mp isFirst
    have isWaiting : task.phase = .waiting := by
      simpa using waits
    refine sound.exists_step_of_admitted ordered (by simp [isWaiting]) fun _ => ⟨?_, ?_⟩
    · intro other member
      simpa using noneBefore other member
    · rw [noneBusy]
      exact someone

/-- A pool can always come to its end. -/
theorem Sound.exists_finished
    (ordered : start.disk.Ordered)
    (sound : Sound setup start pool)
    (someone : 0 < jobs) :
    ∃ last, Reaches setup jobs pool last ∧ last.Finished := by
  induction left : pool.remaining using Nat.strong_induction_on generalizing pool with
  | _ count inductionHypothesis =>
      by_cases finished : pool.Finished
      · exact ⟨pool, .refl, finished⟩
      · obtain ⟨next, step⟩ := sound.exists_step ordered someone finished
        obtain ⟨nextSound, _, fewer⟩ := step.sound ordered sound
        obtain ⟨last, reaches, done⟩ :=
          inductionHypothesis next.remaining (left ▸ fewer) nextSound rfl
        exact ⟨last, .head step reaches, done⟩

/-- A pool that is done has left what its files leave one after another. -/
theorem Sound.eq_of_finished
    (sound : Sound setup start pool)
    (finished : pool.Finished)
    (paths : (files.map (·.place.path)).Nodup)
    (shown : ∀ file ∈ files, file.relative ≠ "")
    (noResult : start.summary.results = [])
    (noChange : start.summary.changes = [])
    (sameFiles : pool.tasks.map (·.file) = files)
    {last : State}
    (settles : setup.Settles start files last) :
    pool.state.disk = last.disk ∧
      pool.state.store.timeless = last.store.timeless ∧
      Summary.Same pool.state.summary.sort last.summary.sort ∧
      pool.state.collector.records = last.collector.records := by
  subst sameFiles
  have names := sound.apart.names
  have through {done : Phase → Bool} (isDone : done .finished = true) :
      ∀ task ∈ pool.tasks, done task.phase = true := by
    intro task member
    rw [finished task member, isDone]
  obtain ⟨stored, storedPerm, isStore⟩ := sound.store.all (through rfl)
  obtain ⟨counted, countedPerm, isSummary⟩ := sound.summary.all (through rfl)
  obtain ⟨gathered, gatheredPerm, isCollector⟩ := sound.collector.all (through rfl)
  refine ⟨?_, ?_, ?_, ?_⟩
  · apply sound.disk.ordered.eq_of_kindAt? settles.ordered
      (sound.disk.workDir.trans settles.workDir.symm)
    intro place
    by_cases own : ∃ task ∈ pool.tasks, start.disk.seat task.file.place = place
    · obtain ⟨task, member, rfl⟩ := own
      rw [sound.disk.own task member, settles.own task.file (List.mem_map_of_mem member),
        finished task member]
      rfl
    · rw [settles.elsewhere place, sound.disk.elsewhere place]
      · intro task member
        refine ⟨fun same => own ⟨task, member, same.symm⟩, ?_⟩
        rw [finished task member]
        exact Option.not_mem_none place
      · intro file member same
        obtain ⟨task, isTask, rfl⟩ := List.mem_map.mp member
        exact own ⟨task, isTask, same.symm⟩
  · rw [isStore, settles.store, Setup.timeless_foldl_rememberIn,
      Setup.foldl_rememberTimeless_perm storedPerm names]
  · rw [isSummary, settles.summary]
    exact Setup.sort_foldl_countIn_perm countedPerm paths names noResult noChange
  · rw [isCollector, settles.collector]
    exact Setup.records_foldl_gatherIn_perm gatheredPerm names shown start.collector

end Pool

/-- A run is recorded the same whatever the times in the store. -/
theorem timeless_record
    (migrator : Migrator)
    (options : MigrationOptions)
    (root : Place)
    {first second : State}
    (sameStore : first.store.timeless = second.store.timeless)
    (sameSummary : Summary.Same first.summary second.summary) :
    (record migrator options root first).store.timeless =
      (record migrator options root second).store.timeless := by
  have sameRun : runRecord migrator options root first.summary =
      runRecord migrator options root second.summary := by
    have same := congrArg (runRecord migrator options root) sameSummary.rest
    have failed := sameSummary.failures.length_eq
    unfold runRecord at same ⊢
    rw [failed]
    simpa using same
  unfold record
  rw [sameRun]
  split
  · exact sameStore
  · have added := first.store.timeless_addRun (runRecord migrator options root second.summary)
    rw [sameStore, StateStore.timeless_addRun] at added
    cases firstAdded : first.store.addRun (runRecord migrator options root second.summary) <;>
      cases secondAdded : second.store.addRun (runRecord migrator options root second.summary) <;>
        rw [firstAdded, secondAdded] at added
    · exact sameStore
    · cases added
    · cases added
    · exact ((Prod.mk.inj (Except.ok.inj added)).2).symm

namespace Request

/--
However many workers there are and however their steps fall, a run over files with
different paths, which keep out of each other's way, leaves the disk, the store up to its
times, the summary, with failures of the same path in any order, and the records that it
leaves when it takes the files one after another.  From every point the workers can come
to the end.
-/
theorem workers_leave_what_one_leaves
    {request : Request}
    {failures : String → Option WriteFailure}
    (writes : request.migrator.writer = .failing failures)
    (ordered : request.disk.Ordered)
    (notCancelled : request.options.cancelAfter = none)
    {store : StateStore}
    {ready : State}
    {files : List FoundFile}
    (prepared : request.prepared? store = some (ready, files))
    (distinct : (files.map (·.place.path)).Nodup)
    (ways : WaysApart ready.disk files)
    (jobs : Nat)
    {pool : Pool}
    (reaches : Pool.Reaches ⟨request.migrator, request.options, failures, writes⟩ jobs
      (Pool.start ready files) pool) :
    let parallel := record request.migrator request.options request.root
      { pool.state with summary := pool.state.summary.sort }
    let sequential := (run request.migrator request.options request.disk store).state
    (pool.Finished →
      parallel.disk = sequential.disk ∧
        parallel.store.timeless = sequential.store.timeless ∧
        Summary.Same parallel.summary sequential.summary ∧
        parallel.collector.records = sequential.collector.records) ∧
      (0 < jobs → ∃ last,
        Pool.Reaches ⟨request.migrator, request.options, failures, writes⟩ jobs pool last ∧
          last.Finished) := by
  intro parallel sequential
  have isReady := ready_of_prepared ordered prepared
  have apart := isReady.apart ordered ways distinct
  obtain ⟨sound, sameFiles⟩ := reaches.sound isReady.ordered (.of_start isReady.ordered apart)
  refine ⟨fun finished => ?_, sound.exists_finished isReady.ordered⟩
  have settles : Setup.Settles ⟨request.migrator, request.options, failures, writes⟩ ready files
      (processAll request.migrator request.options files.length ready files) :=
    Setup.processAll_settles notCancelled files.length isReady.ordered apart
  obtain ⟨sameDisk, sameStore, sameSummary, sameRecords⟩ :=
    sound.eq_of_finished finished distinct
      (fun file member => (isReady.candidates file member).shown) isReady.results isReady.changes
      (sameFiles.trans (by simp [Pool.start, Function.comp_def])) settles
  have isSequential : sequential = _ := run_eq_of_prepared prepared
  rw [isSequential]
  refine ⟨?_, timeless_record _ _ _ sameStore sameSummary, ?_, ?_⟩
  · rw [disk_record, disk_record]
    exact sameDisk
  · rw [summary_record, summary_record]
    exact sameSummary
  · rw [collector_record, collector_record]
    exact sameRecords

/-- A script beside another one that is given by a path through a link to its directory. -/
def throughLink : Request :=
  let script : Node := .file (.text "tool\n".toList) Disk.defaultMode
  let disk : Disk :=
    { root := .directory
        [("a.gd", script), ("l", .link "p"), ("p", .directory [("b.gd", script)])] }
  { byDefault disk with
    options := { root := "/", files := ["/a.gd", "/l/b.gd"] } }

theorem ordered_throughLink :
    throughLink.disk.Ordered := by
  refine ⟨.directory (by decide) (by decide) ?_, rfl⟩
  refine List.forall_mem_cons.mpr ⟨.file _ _, List.forall_mem_cons.mpr ⟨.link _, ?_⟩⟩
  exact List.forall_mem_singleton.mpr
    (.directory (by decide) (by decide) (List.forall_mem_singleton.mpr (.file _ _)))

/-- Two workers are busy with two scripts at once, and both scripts come out migrated. -/
theorem two_workers_leave_what_one_leaves :
    let request := throughLink
    let setup : Setup := ⟨request.migrator, request.options, _, writer_byDefault request.disk⟩
    let sequential := (run request.migrator request.options request.disk (.memory {})).state
    ∃ ready files both last,
      request.prepared? (.memory {}) = some (ready, files) ∧
        Pool.Reaches setup 2 (Pool.start ready files) both ∧
        both.busy = 2 ∧
        Pool.Reaches setup 2 both last ∧
        last.Finished ∧
        last.state.disk = sequential.disk ∧
        sequential.disk.kindAt? ["p", "b.gd"] =
          some (.file (.text "@tool\n".toList) Disk.defaultMode) := by
  intro request setup sequential
  have facts :
      (request.prepared? (.memory {})).map (·.2) =
          some [⟨["a.gd"], "a.gd", 5⟩, ⟨["l", "b.gd"], "l/b.gd", 5⟩] ∧
        sequential.disk.kindAt? ["p", "b.gd"] =
          some (.file (.text "@tool\n".toList) Disk.defaultMode) := by
    decide +kernel
  obtain ⟨found, changed⟩ := facts
  obtain ⟨⟨ready, files⟩, prepared, rfl⟩ := Option.map_eq_some_iff.mp found
  have isReady := ready_of_prepared ordered_throughLink prepared
  have readyDisk := isReady.unchanged rfl
  let first : FoundFile := ⟨["a.gd"], "a.gd", 5⟩
  let second : FoundFile := ⟨["l", "b.gd"], "l/b.gd", 5⟩
  have ways : WaysApart ready.disk [first, second] := by
    rw [readyDisk]
    apply waysApart_of_found
    decide +kernel
  have begins (earlier later : List Task) (file : FoundFile)
      (nobodyWaits : ∀ other ∈ earlier, other.phase ≠ .waiting)
      (free : Pool.busy ⟨earlier ++ ⟨file, .waiting⟩ :: later, ready⟩ < 2) :
      Pool.Step setup 2 ⟨earlier ++ ⟨file, .waiting⟩ :: later, ready⟩
        ⟨earlier ++ ⟨file, .reading⟩ :: later, ready⟩ :=
    .step ⟨0, 0⟩ (by simp) (fun _ => ⟨nobodyWaits, free⟩) (by simp [Phase.creates])
  have both : Pool.Reaches setup 2 (Pool.start ready [first, second])
      ⟨[⟨first, .reading⟩, ⟨second, .reading⟩], ready⟩ :=
    .tail
      (.single (begins [] [⟨second, .waiting⟩] first (by simp) (by simp [Pool.busy])))
      (begins [⟨first, .reading⟩] [] second (by simp) (by simp [Pool.busy]))
  have leave {pool : Pool} (reaches : Pool.Reaches setup 2 (Pool.start ready [first, second]) pool) :=
    @workers_leave_what_one_leaves request _ (writer_byDefault request.disk) ordered_throughLink rfl
      _ _ _ prepared (by decide) ways 2 _ reaches
  obtain ⟨last, reaches, finished⟩ := (leave both).2 (by decide)
  have same : last.state.disk = sequential.disk := by
    have recorded := ((leave (both.trans reaches)).1 finished).1
    rw [disk_record] at recorded
    exact recorded
  have busy : Pool.busy ⟨[⟨first, .reading⟩, ⟨second, .reading⟩], ready⟩ = 2 := rfl
  exact ⟨ready, _, _, last, prepared, both, busy, reaches, finished, same, changed⟩

/--
What is told of a run depends on the schedule, though its candidates have different
paths and names: some workers come to an end with a summary that tells another thing
than that of the files one after another.
-/
def DependsOnSchedule
    {α : Type}
    (request : Request)
    {failures : String → Option WriteFailure}
    (writes : request.migrator.writer = .failing failures)
    (jobs : Nat)
    (told : Summary → α) :
    Prop :=
  ∃ ready files last,
    request.prepared? (.memory {}) = some (ready, files) ∧
      (files.map (·.place.path)).Nodup ∧
      (files.map (·.relative)).Nodup ∧
      Pool.Reaches ⟨request.migrator, request.options, failures, writes⟩ jobs
        (Pool.start ready files) last ∧
      last.Finished ∧
      told last.state.summary.sort ≠
        told (run request.migrator request.options request.disk (.memory {})).state.summary

/-- One schedule on which another thing is told is enough. -/
theorem dependsOnSchedule_of_follow?
    {α : Type}
    [DecidableEq α]
    {request : Request}
    {failures : String → Option WriteFailure}
    {writes : request.migrator.writer = .failing failures}
    {jobs : Nat}
    {told : Summary → α}
    (schedule : List Nat)
    (checked :
      let setup : Setup := ⟨request.migrator, request.options, failures, writes⟩
      let sequential := run request.migrator request.options request.disk (.memory {})
      ((request.prepared? (.memory {})).any fun reached =>
        decide (reached.2.map (·.place.path)).Nodup &&
          decide (reached.2.map (·.relative)).Nodup &&
          ((Pool.start reached.1 reached.2).follow? setup jobs schedule).any fun last =>
            last.tasks.all (·.phase.isFinished) &&
              decide (told last.state.summary.sort ≠ told sequential.state.summary)) = true) :
    request.DependsOnSchedule writes jobs told := by
  obtain ⟨⟨ready, files⟩, prepared, accepted⟩ :=
    (Option.any_eq_true _ _).mp checked
  simp only [Bool.and_eq_true, decide_eq_true_eq] at accepted
  obtain ⟨⟨paths, names⟩, followed⟩ := accepted
  obtain ⟨last, isLast, ended⟩ := (Option.any_eq_true _ _).mp followed
  rw [Bool.and_eq_true, List.all_eq_true, decide_eq_true_eq] at ended
  obtain ⟨finished, different⟩ := ended
  refine ⟨ready, files, last, prepared, paths, names, Pool.reaches_of_follow? isLast, ?_, different⟩
  intro task member
  exact Phase.eq_finished (finished task member)

/-- A name that is not there, and a directory of twelve files that are no text, one with that name. -/
def unreadableFiles : Request :=
  let names := ["a", "b", "c", "d", "e", "f", "g", "h", "i", "j", "k", "l"]
  let unreadable : Node := .file (.binary [0xFF]) Disk.defaultMode
  let disk : Disk := { root := .directory [("p", .directory (names.map (·, unreadable)))] }
  { byDefault disk with
    options := { root := "p", files := "e" :: names.map ("p/" ++ ·) } }

/-- A script beside a link with the name of a script. -/
def linkedScript
    (target : String) :
    Request :=
  byDefault
    { root := .directory
        [("a.gd", .file (.text "tool\n".toList) Disk.defaultMode), ("b.gd", .link target)] }

/--
The order of two failures with the same path depends on the schedule of two workers,
where one of them comes from a name that was given and is not there.  Where one candidate
is a link to the other, it does whether a script is migrated once or twice; and where it
is a link that leads nowhere, unless the other one's temporary file takes the name,
whether it fails.
-/
theorem ties_and_links_depend_on_schedule :
    let linked := linkedScript "a.gd"
    let dangling := linkedScript ".a.gd.tmp-0"
    unreadableFiles.DependsOnSchedule (writer_byDefault unreadableFiles.disk) 2 (·.failures) ∧
      linked.DependsOnSchedule (writer_byDefault linked.disk) 2 (·.modified) ∧
      dangling.DependsOnSchedule (writer_byDefault dangling.disk) 2 (·.failures.length) := by
  intro linked dangling
  -- the sixth file overtakes the fifth one
  let overtaking : List Nat :=
    [0, 1, 2, 3].flatMap (List.replicate 4) ++
      4 :: List.replicate 4 5 ++ List.replicate 3 4 ++
        [6, 7, 8, 9, 10, 11].flatMap (List.replicate 4)
  -- both files are read before one of them is written
  let together : List Nat :=
    [0, 0, 1, 1] ++ List.replicate 15 0 ++ List.replicate 15 1
  -- the second file is done while the new content of the first one is in the temporary file
  let between : List Nat :=
    List.replicate 8 0 ++ List.replicate 8 1 ++ List.replicate 9 0
  refine ⟨dependsOnSchedule_of_follow? overtaking ?_, dependsOnSchedule_of_follow? together ?_,
    dependsOnSchedule_of_follow? between ?_⟩ <;>
  decide +kernel

end Request

end Migration

end ScriptUplift
