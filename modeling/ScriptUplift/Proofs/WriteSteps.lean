import Mathlib.Logic.Function.Iterate
import Mathlib.Tactic.Common
import ScriptUplift.Project.Migration
import ScriptUplift.Proofs.ChangedDisk

namespace ScriptUplift

/-!
# Replacing a file step by step

A replacement looks up the permissions, makes a temporary file, works on it and
renames it; one that fails removes the temporary file again.  Every step shows on
the disk, so that other work can come between two of them.  `WriteMove` says once
what a step can do; that a replacement ends with the new content or with the disk
it found follows from it.
-/

/-- What a replacement does with its temporary file, in this order. -/
inductive TemporaryStep
  | fill
  | sync
  | close
  | chmod
  /-- The last look at the complete file, which can stop the replacement. -/
  | inspect
  | rename
  deriving Repr, DecidableEq

/-- A step at which a replacement can fail. -/
inductive WriteStep
  | create
  | temporary (step : TemporaryStep)
  deriving Repr, DecidableEq

/-- Where and why a replacement fails. -/
structure WriteFailure where
  step : WriteStep
  cause : Fault
  /-- What had reached the temporary file when filling it failed. -/
  written : Text := []
  deriving Repr, DecidableEq

/-- The fault a replacement fails with. -/
def WriteFailure.fault
    (failure : WriteFailure)
    (path : String) :
    Fault :=
  match failure.step with
  | .create => .during "failed to create temp file" failure.cause
  | .temporary .fill => .during "failed to write temp file" failure.cause
  | .temporary .sync => .during "failed to sync temp file" failure.cause
  | .temporary .close => .during "failed to close temp file" failure.cause
  | .temporary .chmod => .during "failed to set permissions" failure.cause
  | .temporary .inspect => failure.cause
  | .temporary .rename => .during ("failed to replace " ++ path) failure.cause

/-- How far a replacement has come. -/
inductive Writing
  | begun
  /-- The permissions of the file are known. -/
  | permitted (mode : Nat)
  /-- The temporary file is there, and a step on it comes next. -/
  | holding (step : TemporaryStep) (number mode : Nat)
  /-- The temporary file is still to be removed. -/
  | failed (number mode : Nat) (fault : Fault)
  | ended (fault : Option Fault)
  deriving Repr, DecidableEq

/-- The number of the temporary file that is on the disk. -/
def Writing.number? : Writing → Option Nat
  | .holding _ number _ => some number
  | .failed number _ _ => some number
  | _ => none

/-- The permissions that were looked up. -/
def Writing.mode? : Writing → Option Nat
  | .permitted mode => some mode
  | .holding _ _ mode => some mode
  | .failed _ mode _ => some mode
  | _ => none

/-- A file to be replaced, and whether that fails. -/
structure WriteJob where
  path : String
  content : Content
  failure? : Option WriteFailure := none

namespace WriteJob

/-- The permissions of a new temporary file. -/
def newMode : Nat :=
  0o600

/-- The path of the temporary file with a number. -/
def temporary
    (job : WriteJob)
    (number : Nat) :
    String :=
  Disk.temporaryPath (Path.parent job.path) (Path.base job.path) number

/-- The replacement with a complete temporary file. -/
def pending
    (job : WriteJob)
    (disk : Disk)
    (number mode : Nat) :
    PendingWrite where
  disk := disk
  target := job.path
  temporary := job.temporary number
  content := job.content
  mode := mode

/-- The fault a step fails with. -/
def faultAt?
    (job : WriteJob)
    (step : WriteStep) :
    Option Fault :=
  match job.failure? with
  | some failure => if failure.step = step then some (failure.fault job.path) else none
  | none => none

/-- Let the temporary file hold something. -/
def hold
    (job : WriteJob)
    (disk : Disk)
    (number : Nat)
    (content : Content)
    (mode : Nat) :
    Disk :=
  match disk.placeOf (job.temporary number) with
  | .ok place => disk.put place (.file content mode)
  | .error _ => disk

/-- What a step that fails leaves in the temporary file. -/
def spoil
    (job : WriteJob)
    (disk : Disk)
    (number : Nat) :
    TemporaryStep → Disk
  | .fill => job.hold disk number (.text ((job.failure?.map (·.written)).getD [])) newMode
  | _ => disk

/-- Take a step on the temporary file. -/
def perform
    (job : WriteJob)
    (disk : Disk)
    (number mode : Nat) :
    TemporaryStep → Disk × Writing
  | .fill => (job.hold disk number job.content newMode, .holding .sync number mode)
  | .sync => (disk, .holding .close number mode)
  | .close => (disk, .holding .chmod number mode)
  | .chmod => (job.hold disk number job.content mode, .holding .inspect number mode)
  | .inspect => (disk, .holding .rename number mode)
  | .rename =>
      match (job.pending disk number mode).commit with
      | .ok written => (written, .ended none)
      | .error fault =>
          (disk, .failed number mode
            (.during ("failed to replace " ++ job.path) (.plain fault.message)))

/-- Take the next step of a replacement; a new temporary file gets the number. -/
def advance
    (job : WriteJob)
    (number : Nat)
    (disk : Disk) :
    Writing → Disk × Writing
  | .begun =>
      (disk, .permitted (disk.modeFor job.path))
  | .permitted mode =>
      match job.faultAt? .create with
      | some fault => (disk, .ended (some fault))
      | none =>
          match disk.placeOf (job.temporary number) with
          | .error cause =>
              (disk, .ended (some (.during "failed to create temp file"
                (.plain (DiskFault.message ⟨"open", job.temporary number, cause⟩)))))
          | .ok place =>
              (disk.put place (.file (.text []) newMode), .holding .fill number mode)
  | .holding step number mode =>
      match job.faultAt? (.temporary step) with
      | some fault => (job.spoil disk number step, .failed number mode fault)
      | none => job.perform disk number mode step
  | .failed number mode fault =>
      ((job.pending disk number mode).abandon, .ended (some fault))
  | .ended fault =>
      (disk, .ended fault)

/-- Take all steps, one right after the other; there are at most nine. -/
def run
    (job : WriteJob)
    (number : Nat)
    (disk : Disk) :
    Disk × Option Fault :=
  match (fun reached : Disk × Writing => job.advance number reached.1 reached.2)^[9]
    (disk, .begun) with
  | (left, .ended fault) => (left, fault)
  | (left, _) => (left, none)

end WriteJob

/-- Write files atomically, where given paths fail at given steps. -/
def FileWriter.failing
    (failures : String → Option WriteFailure) :
    FileWriter :=
  fun disk path text =>
    match failures path with
    | none => disk.replace path (.text text)
    | some failure =>
        WriteJob.run ⟨path, .text text, some failure⟩
          (disk.freshNumber (Path.parent path) (Path.base path)) disk

theorem FileWriter.failing_none :
    FileWriter.failing (fun _ => none) = .atomic :=
  rfl

namespace TemporaryStep

/-- The step that follows. -/
def next? : TemporaryStep → Option TemporaryStep
  | .fill => some .sync
  | .sync => some .close
  | .close => some .chmod
  | .chmod => some .inspect
  | .inspect => some .rename
  | .rename => none

/-- The position of a step. -/
def rank : TemporaryStep → Nat
  | .fill => 1
  | .sync => 2
  | .close => 3
  | .chmod => 4
  | .inspect => 5
  | .rename => 6

end TemporaryStep

/-- The position of a step. -/
def WriteStep.rank : WriteStep → Nat
  | .create => 0
  | .temporary step => step.rank

/-- What one step of the replacement of a file with given permissions can do. -/
inductive WriteMove
    (job : WriteJob)
    (place : Place)
    (held number : Nat)
    (disk : Disk) :
    Writing → Disk → Writing → Prop
  | permit :
      WriteMove job place held number disk .begun disk (.permitted held)
  | refuse {mode : Nat} {fault : Fault}
      (fails : job.faultAt? .create = some fault) :
      WriteMove job place held number disk (.permitted mode) disk (.ended (some fault))
  | create {mode : Nat} {after : Disk}
      (works : job.faultAt? .create = none)
      (made : disk.Changed (place.temporary number) (some (.file (.text []) WriteJob.newMode))
        after) :
      WriteMove job place held number disk (.permitted mode) after (.holding .fill number mode)
  | proceed {step next : TemporaryStep} {own mode : Nat} {content : Content} {kept : Nat}
      {after : Disk}
      (works : job.faultAt? (.temporary step) = none)
      (follows : step.next? = some next)
      (touched : disk.Changed (place.temporary own) (some (.file content kept)) after) :
      WriteMove job place held number disk (.holding step own mode) after
        (.holding next own mode)
  | spoil {step : TemporaryStep} {own mode : Nat} {fault : Fault} {content : Content} {kept : Nat}
      {after : Disk}
      (fails : job.faultAt? (.temporary step) = some fault)
      (touched : disk.Changed (place.temporary own) (some (.file content kept)) after) :
      WriteMove job place held number disk (.holding step own mode) after
        (.failed own mode fault)
  | commit {own mode : Nat} {middle after : Disk}
      (works : job.faultAt? (.temporary .rename) = none)
      (removed : disk.Changed (place.temporary own) none middle)
      (replaced : middle.Changed place (some (.file job.content mode)) after) :
      WriteMove job place held number disk (.holding .rename own mode) after (.ended none)
  | cleanUp {own mode : Nat} {fault : Fault} {after : Disk}
      (removed : disk.Changed (place.temporary own) none after) :
      WriteMove job place held number disk (.failed own mode fault) after (.ended (some fault))

namespace WriteJob

variable {disk : Disk} {job : WriteJob} {names place : Place} {kind : Node.Kind} {held : Nat}

theorem advance_permitted_of_fault
    {fault : Fault}
    (faulty : job.faultAt? .create = some fault)
    (number asked : Nat) :
    job.advance number disk (.permitted asked) = (disk, .ended (some fault)) := by
  rw [advance, faulty]

theorem advance_holding_of_fault
    {step : TemporaryStep}
    {fault : Fault}
    (faulty : job.faultAt? (.temporary step) = some fault)
    (number own asked : Nat) :
    job.advance number disk (.holding step own asked) =
      (job.spoil disk own step, .failed own asked fault) := by
  rw [advance, faulty]

theorem advance_holding
    {step : TemporaryStep}
    (works : job.faultAt? (.temporary step) = none)
    (number own asked : Nat) :
    job.advance number disk (.holding step own asked) = job.perform disk own asked step := by
  rw [advance, works]

section

variable
  (ordered : disk.Ordered)
  (target : job.path = names.path)
  (entry : disk.Entry names place kind)

include ordered target entry

/-- The temporary file of a file or a link on the disk is a named file in the same directory. -/
theorem temporary_beside
    (number : Nat) :
    ∃ parent name,
      place = parent ++ [name] ∧
        place.temporary number = parent ++ [Disk.temporaryName name number] ∧
        disk.kindAt? parent = some .directory ∧
        Place.Named (place.temporary number) ∧
        disk.placeOf (job.temporary number) = .ok (place.temporary number) := by
  obtain ⟨parent, name, isPlace, isTemporary, held, named, leads, _⟩ :=
    entry.exists_temporary ordered number
  refine ⟨parent, name, isPlace, isTemporary, held, named, ?_⟩
  unfold temporary
  rw [target, leads]

theorem changed_hold
    {number : Nat}
    (free : disk.kindAt? (place.temporary number) ≠ some .directory)
    (new : Content)
    (newMode : Nat) :
    disk.Changed (place.temporary number) (some (.file new newMode))
      (job.hold disk number new newMode) := by
  obtain ⟨parent, name, _, isTemporary, parentHeld, named, leads⟩ :=
    temporary_beside ordered target entry number
  unfold hold
  rw [leads]
  rw [isTemporary] at free named ⊢
  exact .put_file ordered named parentHeld free new newMode

theorem changed_abandon
    {number : Nat}
    {old : Content}
    {oldMode : Nat}
    (there : disk.kindAt? (place.temporary number) = some (.file old oldMode))
    (asked : Nat) :
    disk.Changed (place.temporary number) none (job.pending disk number asked).abandon := by
  obtain ⟨_, _, _, _, _, _, leads⟩ := temporary_beside ordered target entry number
  unfold PendingWrite.abandon pending
  rw [leads]
  exact .remove_file ordered there

theorem exists_commit
    {number : Nat}
    {old : Content}
    {oldMode : Nat}
    (there : disk.kindAt? (place.temporary number) = some (.file old oldMode))
    (asked : Nat) :
    ∃ middle after,
      (job.pending disk number asked).commit = .ok after ∧
        disk.Changed (place.temporary number) none middle ∧
        middle.Changed place (some (.file job.content asked)) after := by
  obtain ⟨parent, name, isPlace, _, parentOld, _, _⟩ :=
    temporary_beside ordered target entry number
  have removed := changed_abandon ordered target entry there asked
  have named := ordered.named entry.found
  have parentHeld :
      (job.pending disk number asked).abandon.kindAt? parent = some .directory := by
    rw [removed.other, parentOld]
    intro same
    rw [← same, parentOld] at there
    cases there
  have stillLeaf : (job.pending disk number asked).abandon.kindAt? place = some kind := by
    rw [removed.other (place.temporary_ne number).symm, entry.found]
  refine ⟨_, (job.pending disk number asked).abandon.put place (.file job.content asked), ?_,
    removed, ?_⟩
  · have leads : (job.pending disk number asked).disk.placeOf
        (job.pending disk number asked).target = .ok place :=
      (congrArg disk.placeOf target).trans entry.leads
    unfold PendingWrite.commit
    simp only [leads]
    split
    · rename_i entries isDirectory
      have directory := Node.kindAt?_of_get? isDirectory
      exact absurd (Option.some.inj (entry.found.symm.trans directory)) entry.leaf
    · rfl
  · rw [isPlace] at stillLeaf named ⊢
    refine .put_file removed.ordered named parentHeld ?_ job.content asked
    rw [stillLeaf]
    simpa using entry.leaf

theorem advance_create
    {number : Nat}
    (free : disk.kindAt? (place.temporary number) = none)
    (works : job.faultAt? .create = none)
    (asked : Nat) :
    WriteMove job place held number disk (.permitted asked)
      (job.advance number disk (.permitted asked)).1
      (job.advance number disk (.permitted asked)).2 := by
  obtain ⟨parent, name, _, isTemporary, parentHeld, named, leads⟩ :=
    temporary_beside ordered target entry number
  rw [advance, works, leads]
  refine .create works ?_
  rw [isTemporary] at named free ⊢
  exact .put_file ordered named parentHeld (by simp [free]) _ _

theorem advance_perform
    {own : Nat}
    {old : Content}
    {oldMode : Nat}
    (there : disk.kindAt? (place.temporary own) = some (.file old oldMode))
    {step : TemporaryStep}
    (works : job.faultAt? (.temporary step) = none)
    (number asked : Nat) :
    WriteMove job place held number disk (.holding step own asked)
      (job.perform disk own asked step).1 (job.perform disk own asked step).2 := by
  have notDirectory : disk.kindAt? (place.temporary own) ≠ some .directory := by
    simp [there]
  have idle := Disk.Changed.idle ordered there
  have touched := changed_hold ordered target entry notDirectory job.content
  cases step with
  | fill =>
      dsimp only [perform]
      exact .proceed works rfl (touched newMode)
  | chmod =>
      dsimp only [perform]
      exact .proceed works rfl (touched asked)
  | sync | close | inspect =>
      exact .proceed works rfl idle
  | rename =>
      obtain ⟨middle, after, committed, removed, replaced⟩ :=
        exists_commit ordered target entry there asked
      rw [perform, committed]
      exact .commit works removed replaced

theorem advance_spoil
    {own : Nat}
    {old : Content}
    {oldMode : Nat}
    (there : disk.kindAt? (place.temporary own) = some (.file old oldMode))
    {step : TemporaryStep}
    {fault : Fault}
    (fails : job.faultAt? (.temporary step) = some fault)
    (number asked : Nat) :
    WriteMove job place held number disk (.holding step own asked)
      (job.spoil disk own step) (.failed own asked fault) := by
  have notDirectory : disk.kindAt? (place.temporary own) ≠ some .directory := by
    simp [there]
  cases step with
  | fill =>
      rw [WriteJob.spoil]
      exact .spoil fails (changed_hold ordered target entry notDirectory _ _)
  | sync | close | chmod | inspect | rename =>
      exact .spoil fails (Disk.Changed.idle ordered there)

/-- Every step of a replacement is one of the moves. -/
theorem advance_moves
    {number : Nat}
    {writing : Writing}
    (looked : writing = .begun → disk.modeFor job.path = held)
    (free : ∀ asked, writing = .permitted asked → disk.kindAt? (place.temporary number) = none)
    (there : ∀ own, writing.number? = some own →
      ∃ old oldMode, disk.kindAt? (place.temporary own) = some (.file old oldMode))
    (unfinished : ∀ fault, writing ≠ .ended fault) :
    WriteMove job place held number disk writing
      (job.advance number disk writing).1 (job.advance number disk writing).2 := by
  cases writing with
  | begun =>
      rw [advance, looked rfl]
      exact .permit
  | permitted asked =>
      cases faulty : job.faultAt? .create with
      | some fault =>
          rw [advance_permitted_of_fault faulty]
          exact .refuse faulty
      | none =>
          exact advance_create ordered target entry (free asked rfl) faulty asked
  | holding step own asked =>
      obtain ⟨old, oldMode, isThere⟩ := there own rfl
      cases faulty : job.faultAt? (.temporary step) with
      | some fault =>
          rw [advance_holding_of_fault faulty]
          exact advance_spoil ordered target entry isThere faulty number asked
      | none =>
          rw [advance_holding faulty]
          exact advance_perform ordered target entry isThere faulty number asked
  | failed own asked fault =>
      obtain ⟨old, oldMode, isThere⟩ := there own rfl
      dsimp only [advance]
      exact .cleanUp (changed_abandon ordered target entry isThere asked)
  | ended fault =>
      exact absurd rfl (unfinished fault)

end

/-- The fault that the rest of a replacement ends with. -/
def verdict
    (job : WriteJob) :
    Writing → Option Fault
  | .begun => job.failure?.map (·.fault job.path)
  | .permitted _ => job.failure?.map (·.fault job.path)
  | .holding step _ _ =>
      (job.failure?.filter (step.rank ≤ ·.step.rank)).map (·.fault job.path)
  | .failed _ _ fault => some fault
  | .ended fault => fault

end WriteJob

namespace WriteMove

variable {job : WriteJob} {place : Place} {held number : Nat} {disk after : Disk}
  {writing next : Writing}

/-- No step changes what the replacement ends with. -/
theorem verdict_eq
    (move : WriteMove job place held number disk writing after next) :
    job.verdict next = job.verdict writing := by
  cases failing? : job.failure? with
  | none =>
      cases move with
      | refuse fails | spoil fails touched =>
          simp [WriteJob.faultAt?, failing?] at fails
      | permit | create | proceed | commit | cleanUp =>
          simp [WriteJob.verdict, failing?]
  | some failure =>
      have decided (step : WriteStep) : job.faultAt? step =
          if failure.step = step then some (failure.fault job.path) else none := by
        rw [WriteJob.faultAt?, failing?]
      cases move with
      | permit | cleanUp =>
          rfl
      | refuse fails =>
          rw [decided, Option.ite_none_right_eq_some] at fails
          simp [WriteJob.verdict, failing?, fails.2]
      | create works made =>
          rw [decided] at works
          have passed : 1 ≤ failure.step.rank := by
            cases step : failure.step with
            | create =>
                simp [step] at works
            | temporary other =>
                cases other <;> decide
          simp [WriteJob.verdict, failing?, TemporaryStep.rank, passed]
      | @proceed step next own mode content kept after works follows touched =>
          rw [decided] at works
          have different : failure.step ≠ .temporary step := by
            simpa using works
          -- between a step and the next one there is no other step
          have sameSide : next.rank ≤ failure.step.rank ↔ step.rank ≤ failure.step.rank := by
            cases failing : failure.step with
            | create =>
                cases step <;> cases follows <;> decide
            | temporary other =>
                rw [failing] at different
                cases step <;> cases follows <;> cases other <;>
                  simp [WriteStep.rank, TemporaryStep.rank] at different ⊢
          simp [WriteJob.verdict, failing?, Option.filter, sameSide]
      | spoil fails touched =>
          rw [decided, Option.ite_none_right_eq_some] at fails
          simp [WriteJob.verdict, failing?, Option.filter, fails.1, fails.2, WriteStep.rank]
      | commit works removed replaced =>
          rw [decided] at works
          have passed : ¬ TemporaryStep.rename.rank ≤ failure.step.rank := by
            cases step : failure.step with
            | create =>
                decide
            | temporary other =>
                cases other with
                | rename =>
                    simp [step] at works
                | fill | sync | close | chmod | inspect =>
                    decide
          simp [WriteJob.verdict, failing?, Option.filter, passed]

theorem mode?_eq
    (move : WriteMove job place held number disk writing after next)
    (known : ∀ mode ∈ writing.mode?, mode = held) :
    ∀ mode ∈ next.mode?, mode = held := by
  cases move with
  | permit =>
      intro mode isMode
      exact (Option.some.inj isMode).symm
  | refuse | commit | cleanUp =>
      intro mode isMode
      cases isMode
  | create | proceed | spoil =>
      exact known

end WriteMove

/-- A bound on the number of steps that are left. -/
def Writing.remaining : Writing → Nat
  | .begun => 9
  | .permitted _ => 8
  | .holding step _ _ => 8 - step.rank
  | .failed _ _ _ => 1
  | .ended _ => 0

theorem WriteMove.remaining_lt
    {job : WriteJob}
    {place : Place}
    {held number : Nat}
    {disk after : Disk}
    {writing next : Writing}
    (move : WriteMove job place held number disk writing after next) :
    next.remaining < writing.remaining := by
  cases move with
  | permit | refuse | create | commit | cleanUp =>
      simp [Writing.remaining, TemporaryStep.rank]
  | @proceed step next _ _ _ _ _ _ follows _ =>
      cases step <;> cases follows <;> simp [Writing.remaining, TemporaryStep.rank]
  | @spoil step _ _ _ _ _ _ _ _ =>
      cases step <;> simp [Writing.remaining, TemporaryStep.rank]

/-- What a replacement that nothing comes between has made of the disk it began with. -/
def WriteJob.Alone
    (job : WriteJob)
    (place : Place)
    (held number : Nat)
    (start disk : Disk) :
    Writing → Prop
  | .begun => disk = start
  | .permitted mode => disk = start ∧ mode = held
  | .holding _ own mode =>
      own = number ∧ mode = held ∧
        ∃ content kept, start.Changed (place.temporary number) (some (.file content kept)) disk
  | .failed own mode _ =>
      own = number ∧ mode = held ∧
        ∃ content kept, start.Changed (place.temporary number) (some (.file content kept)) disk
  | .ended none => start.Changed place (some (.file job.content held)) disk
  | .ended (some _) => disk = start

namespace WriteJob.Alone

variable {job : WriteJob} {names place : Place} {held number : Nat} {start disk after : Disk}
  {writing next : Writing} {kind : Node.Kind}

theorem move
    (ordered : start.Ordered)
    (free : start.kindAt? (place.temporary number) = none)
    (alone : job.Alone place held number start disk writing)
    (moves : WriteMove job place held number disk writing after next) :
    job.Alone place held number start after next := by
  cases moves with
  | permit =>
      exact ⟨alone, rfl⟩
  | refuse fails =>
      exact alone.1
  | create works made =>
      obtain ⟨rfl, rfl⟩ := alone
      exact ⟨rfl, rfl, _, _, made⟩
  | proceed works follows touched =>
      obtain ⟨rfl, rfl, _, _, made⟩ := alone
      exact ⟨rfl, rfl, _, _, made.trans touched⟩
  | spoil fails touched =>
      obtain ⟨rfl, rfl, _, _, made⟩ := alone
      exact ⟨rfl, rfl, _, _, made.trans touched⟩
  | commit works removed replaced =>
      obtain ⟨rfl, rfl, _, _, made⟩ := alone
      rw [← free] at removed
      rw [made.eq_of_undone ordered removed] at replaced
      exact replaced
  | cleanUp removed =>
      obtain ⟨rfl, rfl, _, _, made⟩ := alone
      rw [← free] at removed
      exact made.eq_of_undone ordered removed

/-- Until a replacement ends, the path leads to the entry it led to. -/
theorem still_entry
    (ordered : start.Ordered)
    (entry : start.Entry names place kind)
    (free : start.kindAt? (place.temporary number) = none)
    (alone : job.Alone place held number start disk writing)
    (unfinished : ∀ fault, writing ≠ .ended fault) :
    disk.Ordered ∧ disk.Entry names place kind := by
  cases writing with
  | begun =>
      obtain rfl := alone
      exact ⟨ordered, entry⟩
  | permitted mode =>
      obtain ⟨rfl, _⟩ := alone
      exact ⟨ordered, entry⟩
  | holding step own mode =>
      obtain ⟨_, _, _, _, made⟩ := alone
      exact ⟨made.ordered, entry.of_changed ordered free made⟩
  | failed own mode fault =>
      obtain ⟨_, _, _, _, made⟩ := alone
      exact ⟨made.ordered, entry.of_changed ordered free made⟩
  | ended fault =>
      exact absurd rfl (unfinished fault)

/-- The next step of a replacement that nothing comes between is one of the moves. -/
theorem moves
    (ordered : start.Ordered)
    (target : job.path = names.path)
    (entry : start.Entry names place kind)
    (looked : start.modeFor names.path = held)
    (free : start.kindAt? (place.temporary number) = none)
    (alone : job.Alone place held number start disk writing)
    (unfinished : ∀ fault, writing ≠ .ended fault) :
    WriteMove job place held number disk writing
      (job.advance number disk writing).1 (job.advance number disk writing).2 := by
  obtain ⟨diskOrdered, stillEntry⟩ := alone.still_entry ordered entry free unfinished
  apply advance_moves diskOrdered target stillEntry
  · rintro rfl
    obtain rfl : disk = start := alone
    rw [target, looked]
  · rintro asked rfl
    rw [alone.1, free]
  · intro own isOwn
    cases writing with
    | holding step other mode =>
        obtain rfl := Option.some.inj isOwn
        obtain ⟨rfl, _, _, _, made⟩ := alone
        exact ⟨_, _, made.own⟩
    | failed other mode fault =>
        obtain rfl := Option.some.inj isOwn
        obtain ⟨rfl, _, _, _, made⟩ := alone
        exact ⟨_, _, made.own⟩
    | begun | permitted | ended =>
        cases isOwn
  · exact unfinished

/-- The number counts only where the temporary file is made, on the disk it began with. -/
theorem advance_eq
    (alone : job.Alone place held number start disk writing)
    {other : Nat}
    (same : disk = start → other = number) :
    job.advance other disk writing = job.advance number disk writing := by
  cases writing with
  | permitted mode =>
      rw [same alone.1]
  | begun | holding | failed | ended =>
      rfl

/-- A replacement that nothing comes between takes its steps to the end. -/
theorem iterate
    (ordered : start.Ordered)
    (target : job.path = names.path)
    (entry : start.Entry names place kind)
    (looked : start.modeFor names.path = held)
    (free : start.kindAt? (place.temporary number) = none)
    (steps : Nat)
    (alone : job.Alone place held number start disk writing)
    (enough : writing.remaining ≤ steps) :
    ∃ left,
      (fun reached : Disk × Writing => job.advance number reached.1 reached.2)^[steps]
          (disk, writing) = (left, .ended (job.verdict writing)) ∧
        job.Alone place held number start left (.ended (job.verdict writing)) := by
  induction steps generalizing disk writing with
  | zero =>
      cases writing with
      | ended fault =>
          exact ⟨disk, rfl, alone⟩
      | holding step own mode =>
          cases step <;> simp [Writing.remaining, TemporaryStep.rank] at enough
      | begun | permitted | failed =>
          simp [Writing.remaining] at enough
  | succ steps inductionHypothesis =>
      rw [Function.iterate_succ_apply]
      dsimp only
      by_cases ended : ∃ fault, writing = .ended fault
      · obtain ⟨fault, rfl⟩ := ended
        exact inductionHypothesis alone (Nat.zero_le _)
      · have unfinished (fault : Option Fault) : writing ≠ .ended fault :=
          fun same => ended ⟨fault, same⟩
        have moves := alone.moves ordered target entry looked free unfinished
        generalize job.advance number disk writing = reached at moves ⊢
        obtain ⟨after, next⟩ := reached
        rw [← moves.verdict_eq]
        have fewer := Nat.le_of_lt_succ (Nat.lt_of_lt_of_le moves.remaining_lt enough)
        exact inductionHypothesis (alone.move ordered free moves) fewer

end WriteJob.Alone

namespace FileWriter

variable {disk : Disk} {names place : Place} {kind : Node.Kind}

/-- An atomic write replaces the file or the link a path leads to and nothing else. -/
theorem replace_spec
    (ordered : disk.Ordered)
    (entry : disk.Entry names place kind)
    (new : Content) :
    ∃ after,
      disk.replace names.path new = (after, none) ∧
        disk.Changed place (some (.file new (disk.modeFor names.path))) after := by
  let job : WriteJob := ⟨names.path, new, none⟩
  have target : job.path = names.path := rfl
  let mode := disk.modeFor names.path
  let number := disk.freshNumber (Path.parent names.path) (Path.base names.path)
  have free : disk.kindAt? (place.temporary number) = none :=
    entry.kindAt?_temporary_freshNumber ordered
  obtain ⟨parent, name, _, isTemporary, held, named, leads⟩ :=
    WriteJob.temporary_beside ordered target entry number
  have made : disk.Changed (place.temporary number) (some (.file new mode))
      (disk.put (place.temporary number) (.file new mode)) := by
    rw [isTemporary] at named free ⊢
    exact .put_file ordered named held (by rw [free]; simp) new mode
  have begins : disk.beginWrite names.path new =
      .ok (job.pending (disk.put (place.temporary number) (.file new mode)) number mode) := by
    have isTemporaryPath : disk.freshTemporaryPath (Path.parent names.path)
        (Path.base names.path) = job.temporary number :=
      Disk.freshTemporaryPath_eq _ _ _
    unfold Disk.beginWrite
    rw [isTemporaryPath]
    dsimp only
    rw [leads]
    rfl
  obtain ⟨middle, after, committed, removed, replaced⟩ :=
    WriteJob.exists_commit made.ordered target (entry.of_changed ordered free made) made.own mode
  refine ⟨after, ?_, ?_⟩
  · unfold Disk.replace
    rw [begins]
    dsimp only
    rw [committed]
  · rw [← free] at removed
    rw [made.eq_of_undone ordered removed] at replaced
    exact replaced

/-- A write that fails leaves the disk it found and answers with its fault. -/
theorem run_of_failure
    (ordered : disk.Ordered)
    (entry : disk.Entry names place kind)
    (new : Content)
    (failure : WriteFailure) :
    WriteJob.run ⟨names.path, new, some failure⟩
        (disk.freshNumber (Path.parent names.path) (Path.base names.path)) disk =
      (disk, some (failure.fault names.path)) := by
  have begun : WriteJob.Alone ⟨names.path, new, some failure⟩ place (disk.modeFor names.path)
      (disk.freshNumber (Path.parent names.path) (Path.base names.path)) disk disk .begun :=
    rfl
  obtain ⟨left, reached, alone⟩ :=
    begun.iterate ordered rfl entry rfl (entry.kindAt?_temporary_freshNumber ordered) 9
      (Nat.le_refl _)
  obtain rfl : left = disk := alone
  unfold WriteJob.run
  rw [reached]
  rfl

/-- The steps of a replacement that does not fail come to what an atomic write does. -/
theorem run_eq_replace
    (ordered : disk.Ordered)
    (entry : disk.Entry names place kind)
    (new : Content) :
    WriteJob.run ⟨names.path, new, none⟩
        (disk.freshNumber (Path.parent names.path) (Path.base names.path)) disk =
      disk.replace names.path new := by
  have begun : WriteJob.Alone ⟨names.path, new, none⟩ place (disk.modeFor names.path)
      (disk.freshNumber (Path.parent names.path) (Path.base names.path)) disk disk .begun :=
    rfl
  obtain ⟨left, reached, alone⟩ :=
    begun.iterate ordered rfl entry rfl (entry.kindAt?_temporary_freshNumber ordered) 9
      (Nat.le_refl _)
  obtain ⟨after, replaced, changed⟩ := replace_spec ordered entry new
  have same : left = after := Disk.Changed.eq_of_same alone changed
  unfold WriteJob.run
  rw [reached, replaced, same]
  rfl

/-- A write takes its steps one right after the other, whether one of them fails or not. -/
theorem failing_eq_run
    (failures : String → Option WriteFailure)
    (ordered : disk.Ordered)
    (entry : disk.Entry names place kind)
    (text : Text) :
    failing failures disk names.path text =
      WriteJob.run ⟨names.path, .text text, failures names.path⟩
        (disk.freshNumber (Path.parent names.path) (Path.base names.path)) disk := by
  unfold failing
  cases failures names.path with
  | none =>
      exact (run_eq_replace ordered entry (.text text)).symm
  | some failure =>
      rfl

end FileWriter

end ScriptUplift
