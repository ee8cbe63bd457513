import Mathlib.Logic.Relation
import Mathlib.Tactic.Common
import ScriptUplift.Proofs.WorkerPool

namespace ScriptUplift

/-!
# A worker that nothing comes between

The phases of a worker, one right after the other, come to what processing its file
leaves, down to the log and the progress.  A run that takes its files one after another
is therefore one of the interleavings of every pool that has a worker.
-/

namespace Migration

/-- The state after a file was processed and before that is reported. -/
def State.left
    (state : State)
    (processed : Processed) :
    State :=
  { state with
    disk := processed.disk
    store := processed.store
    log := state.log ++ processed.log }

theorem State.left_unchanged
    (state : State)
    (outcome : Except Fault (FileResult × Option FileChange)) :
    state.left { disk := state.disk, store := state.store, outcome } = state := by
  simp [State.left]

namespace Setup

/-- A worker takes steps with its file while all the others stand still. -/
def Continues
    (setup : Setup)
    (file : FoundFile)
    (total : Nat) :
    State × Phase → State × Phase → Prop :=
  Relation.ReflTransGen fun before after =>
    before.2 ≠ .finished ∧
      ∃ choice : Choice,
        (before.2.creates = true → before.1.disk.taken (Disk.temporaryPath
          (Path.parent file.place.path) (Path.base file.place.path) choice.number) = false) ∧
          after = setup.advance file total choice before.1 before.2

namespace Continues

variable {setup : Setup} {file : FoundFile} {total : Nat} {state : State} {phase : Phase}
  {reached : State × Phase} {place : Place} {kind : Node.Kind}

theorem step
    (makesNone : phase.creates = false)
    (unfinished : phase ≠ .finished)
    (advanced : setup.advance file total (setup.firstChoice file state) state phase = reached) :
    setup.Continues file total (state, phase) reached := by
  refine .single ⟨unfinished, _, fun makes => ?_, advanced.symm⟩
  rw [makesNone] at makes
  cases makes

/-- What a file came to is reported and gathered. -/
theorem absorb
    {processed : Processed} :
    setup.Continues file total (state.left processed, .reporting processed.outcome)
      (state.absorb file.relative processed, .counting) := by
  obtain ⟨disk, store, log, outcome⟩ := processed
  cases outcome with
  | error fault =>
      exact step rfl (by simp) rfl
  | ok made =>
      obtain ⟨result, change⟩ := made
      have merged : setup.Continues file total
          (state.left ⟨disk, store, log, .ok (result, change)⟩, .reporting (.ok (result, change)))
          ({ state.left ⟨disk, store, log, .ok (result, change)⟩ with
              summary := state.summary.merge result change },
            if result.cached then .counting else .consuming result) :=
        step rfl (by simp) rfl
      unfold State.absorb
      dsimp only
      by_cases cached : result.cached = true
      · rw [if_pos cached] at merged ⊢
        exact merged
      · rw [if_neg cached] at merged ⊢
        exact merged.trans (step rfl (by simp) rfl)

/-- The steps of a write, one right after the other. -/
theorem writeSteps
    {content : Text}
    {source : Source}
    {steps : Nat}
    {fault : Option Fault}
    {disk left : Disk}
    {written : Writing}
    (ordered : state.disk.Ordered)
    (entry : state.disk.Entry file.place place kind)
    (alone : (setup.writeJob file source).Alone place (state.disk.modeFor file.place.path)
      (setup.firstChoice file state).number state.disk disk written)
    (ends : (fun reached : Disk × Writing => (setup.writeJob file source).advance
        (setup.firstChoice file state).number reached.1 reached.2)^[steps] (disk, written) =
      (left, .ended fault)) :
    setup.Continues file total ({ state with disk }, .writing content source written)
      ({ state with disk := left }, .writing content source (.ended fault)) := by
  have free := setup.free_firstChoice ordered entry
  induction steps generalizing disk written with
  | zero =>
      obtain ⟨rfl, rfl⟩ := Prod.mk.inj ends
      exact .refl
  | succ steps inductionHypothesis =>
      rw [Function.iterate_succ_apply] at ends
      by_cases ended : ∃ fault, written = .ended fault
      · obtain ⟨_, rfl⟩ := ended
        exact inductionHypothesis alone ends
      · have unfinished (fault : Option Fault) : written ≠ .ended fault :=
          fun same => ended ⟨fault, same⟩
        have moves := alone.moves ordered rfl entry rfl free unfinished
        obtain ⟨diskOrdered, stillEntry⟩ := alone.still_entry ordered entry free unfinished
        have stepped : setup.Continues file total ({ state with disk }, .writing content source written)
            ({ state with
                disk := ((setup.writeJob file source).advance
                  (setup.firstChoice file state).number disk written).1 },
              .writing content source ((setup.writeJob file source).advance
                (setup.firstChoice file state).number disk written).2) := by
          have sameStep : (setup.writeJob file source).advance
              (setup.firstChoice file { state with disk }).number disk written =
              (setup.writeJob file source).advance (setup.firstChoice file state).number disk
                written := by
            refine alone.advance_eq ?_
            rintro rfl
            rfl
          refine .single ⟨by simp, setup.firstChoice file { state with disk },
            fun _ => setup.unused_firstChoice diskOrdered stillEntry, ?_⟩
          rw [advance_writing_eq _ _ _ _ unfinished]
          dsimp only
          rw [sameStep]
        dsimp only at ends
        generalize (setup.writeJob file source).advance (setup.firstChoice file state).number
          disk written = reached at moves stepped ends
        obtain ⟨after, next⟩ := reached
        exact stepped.trans (inductionHypothesis (alone.move ordered free moves) ends)

/-- A write that nothing comes between does what the writer does. -/
theorem write
    {content : Text}
    {source : Source}
    (ordered : state.disk.Ordered)
    (entry : state.disk.Entry file.place place kind) :
    ∃ disk fault,
      setup.migrator.writer state.disk file.place.path source.render = (disk, fault) ∧
        setup.Continues file total (state, .writing content source .begun)
          ({ state with disk }, .writing content source (.ended fault)) := by
  have begun : (setup.writeJob file source).Alone place (state.disk.modeFor file.place.path)
      (setup.firstChoice file state).number state.disk state.disk .begun :=
    rfl
  have free := setup.free_firstChoice ordered entry
  obtain ⟨left, ends, _⟩ := begun.iterate ordered rfl entry rfl free 9 (Nat.le_refl _)
  have written : setup.migrator.writer state.disk file.place.path source.render =
      (left, (setup.writeJob file source).verdict .begun) := by
    rw [setup.writes, FileWriter.failing_eq_run _ ordered entry]
    have isJob : (⟨file.place.path, .text source.render, setup.failures file.place.path⟩ : WriteJob) =
        setup.writeJob file source :=
      rfl
    have isNumber : state.disk.freshNumber (Path.parent file.place.path)
        (Path.base file.place.path) = (setup.firstChoice file state).number :=
      rfl
    rw [isJob, isNumber, WriteJob.run, ends]
  exact ⟨left, _, written, writeSteps ordered entry begun ends⟩

/-- A file whose output is in place is remembered. -/
theorem remember
    {content : Text}
    {source : Source}
    {log : List LogEvent} :
    let change := changeOf setup.options file content source.render source.report
    let remembered := Migration.remember setup.migrator setup.options file source.report
      source.render state.store
    setup.Continues file total ({ state with log := state.log ++ log }, .remembering content source)
      ({ state with store := remembered.1, log := state.log ++ (log ++ remembered.2) },
        .reporting (.ok (resultOf file source change.isSome, change))) := by
  intro change remembered
  rw [← List.append_assoc]
  exact step rfl (by simp) rfl

/-- A file that passed the pipeline is written and remembered. -/
theorem finish
    {content : Text}
    {source : Source}
    {log : List LogEvent}
    (ordered : state.disk.Ordered)
    (entry : state.disk.Entry file.place place kind) :
    let processed := Migration.finish setup.migrator setup.options file content source state.disk
      state.store log
    setup.Continues file total
      ({ state with
          log := state.log ++ (log ++ source.report.issues.map (issueEvent file.relative)) },
        if setup.rewrites file content source then .writing content source .begun
        else .remembering content source)
      (state.left processed, .reporting processed.outcome) := by
  let told : State :=
    { state with log := state.log ++ (log ++ source.report.issues.map (issueEvent file.relative)) }
  unfold Migration.finish
  by_cases rewrites : setup.rewrites file content source = true
  · obtain ⟨disk, fault, written, steps⟩ :=
      @write setup file total told place kind content source ordered entry
    rw [if_pos rewrites]
    unfold Setup.rewrites at rewrites
    dsimp only
    rw [if_pos rewrites, written]
    cases fault with
    | some fault =>
        exact steps.trans (step rfl (by simp) rfl)
    | none =>
        have concluded : setup.Continues file total
            ({ told with disk }, .writing content source (.ended none))
            ({ told with disk }, .remembering content source) :=
          step rfl (by simp) rfl
        exact (steps.trans concluded).trans
          (@remember setup file total { state with disk } content source _)
  · rw [if_neg rewrites]
    unfold Setup.rewrites at rewrites
    dsimp only
    rw [if_neg rewrites]
    exact remember

/-- A file goes through the pipeline. -/
theorem transform
    {content : Text}
    {log : List LogEvent}
    (ordered : state.disk.Ordered)
    (entry : state.disk.Entry file.place place kind) :
    let processed := Migration.transform setup.migrator setup.options file content state.disk
      state.store log
    setup.Continues file total ({ state with log := state.log ++ log }, .passing content)
      (state.left processed, .reporting processed.outcome) := by
  unfold Migration.transform
  cases ran : setup.migrator.pipeline.run file.relative content with
  | mk source ending =>
      cases ending with
      | done =>
          have passed : setup.Continues file total
              ({ state with log := state.log ++ log }, .passing content)
              ({ state with
                  log := state.log ++ (log ++ source.report.issues.map (issueEvent file.relative)) },
                if setup.rewrites file content source then .writing content source .begun
                else .remembering content source) := by
            refine step rfl (by simp) ?_
            rw [advance, ran]
            dsimp only
            rw [List.append_assoc]
          exact passed.trans (finish ordered entry)
      | failed fault | crashed message =>
          refine step rfl (by simp) ?_
          rw [advance, ran]
          rfl

/-- A file is processed, up to the report. -/
theorem process
    (ordered : state.disk.Ordered)
    (named : file.place.Named) :
    let processed := Migration.process setup.migrator setup.options file state.disk state.store
    setup.Continues file total (state, .waiting)
      (state.left processed, .reporting processed.outcome) := by
  have begins : setup.Continues file total (state, .waiting) (state, .reading) :=
    step rfl (by simp) rfl
  refine begins.trans ?_
  unfold Migration.process
  cases read : state.disk.readText file.place.path with
  | error fault =>
      refine step rfl (by simp) ?_
      rw [advance, read, State.left_unchanged]
  | ok content =>
      obtain ⟨_, kind, entry⟩ := Disk.Entry.exists_of_readText ordered named read
      have passes := @transform setup file total state _ kind content [] ordered entry
      rw [List.append_nil] at passes
      dsimp only
      by_cases asked : setup.options.useCache = true
      · have asks : setup.Continues file total (state, .reading) (state, .asking content) := by
          refine step rfl (by simp) ?_
          rw [advance, read]
          dsimp only
          rw [if_pos asked]
        rw [if_pos asked]
        refine asks.trans ?_
        cases answer : askCache setup.migrator state.store file.relative (fingerprintOf content) with
        | clean =>
            refine step rfl (by simp) ?_
            rw [advance, answer, State.left_unchanged]
        | unknown =>
            have unknown : setup.Continues file total (state, .asking content)
                (state, .passing content) := by
              refine step rfl (by simp) ?_
              rw [advance, answer]
            exact unknown.trans passes
        | failed fault =>
            have unanswered : setup.Continues file total (state, .asking content)
                (state.tell (storeWarning "failed to read cache" file.relative fault),
                  .passing content) := by
              refine step rfl (by simp) ?_
              rw [advance, answer]
            exact unanswered.trans (transform ordered entry)
      · rw [if_neg asked]
        have unasked : setup.Continues file total (state, .reading) (state, .passing content) := by
          refine step rfl (by simp) ?_
          rw [advance, read]
          dsimp only
          rw [if_neg asked]
        exact unasked.trans passes

/-- A worker that nothing comes between does to the run what processing its file does. -/
theorem visit
    (ordered : state.disk.Ordered)
    (named : file.place.Named) :
    setup.Continues file total (state, .waiting) (setup.visit total state file, .finished) := by
  let processed := Migration.process setup.migrator setup.options file state.disk state.store
  have sameProgress : (state.absorb file.relative processed).progress = state.progress := by
    unfold State.absorb
    cases processed.outcome <;> rfl
  refine ((process ordered named).trans absorb).trans (step rfl (by simp) ?_)
  rw [advance, sameProgress]
  rfl

end Continues

/-- Steps with one file are steps of the pool. -/
theorem Continues.reaches
    {setup : Setup}
    {file : FoundFile}
    {total jobs : Nat}
    {state after : State}
    {phase next : Phase}
    {earlier later : List Task}
    (continues : setup.Continues file total (state, phase) (after, next))
    (isTotal : earlier.length + later.length + 1 = total)
    (noneWaits : ∀ other ∈ earlier, other.phase ≠ .waiting)
    (admitted : Pool.busy ⟨earlier ++ later, state⟩ < jobs) :
    Pool.Reaches setup jobs ⟨earlier ++ ⟨file, phase⟩ :: later, state⟩
      ⟨earlier ++ ⟨file, next⟩ :: later, after⟩ := by
  refine Relation.ReflTransGen.lift
    (fun reached : State × Phase => Pool.mk (earlier ++ ⟨file, reached.2⟩ :: later) reached.1) ?_
    (state, phase) (after, next) continues
  rintro ⟨first, firstPhase⟩ _ ⟨unfinished, choice, unused, rfl⟩
  have isLength : (earlier ++ (⟨file, firstPhase⟩ : Task) :: later).length = total := by
    rw [List.length_append, List.length_cons, ← Nat.add_assoc, isTotal]
  rw [← isLength]
  refine .step choice unfinished (fun waits => ⟨noneWaits, ?_⟩) unused
  -- the worker itself is not busy as long as its file waits
  simpa [Pool.busy, show firstPhase = .waiting from waits] using admitted

end Setup

namespace Pool

variable {setup : Setup} {state : State} {jobs : Nat}

theorem reaches_processAll_of_done
    (done : List FoundFile)
    {files : List FoundFile}
    (notCancelled : setup.options.cancelAfter = none)
    (ordered : state.disk.Ordered)
    (named : ∀ file ∈ files, file.place.Named)
    (someone : 0 < jobs) :
    Reaches setup jobs
      ⟨done.map (⟨·, .finished⟩) ++ files.map (⟨·, .waiting⟩), state⟩
      ⟨done.map (⟨·, .finished⟩) ++ files.map (⟨·, .finished⟩),
        processAll setup.migrator setup.options (done.length + files.length) state files⟩ := by
  induction files generalizing state done with
  | nil =>
      exact .refl
  | cons file rest inductionHypothesis =>
      obtain ⟨fileNamed, restNamed⟩ := List.forall_mem_cons.mp named
      let total := done.length + (file :: rest).length
      have sameTotal : (done ++ [file]).length + rest.length = total := by
        simp only [List.length_append, List.length_cons, List.length_nil, total]
        omega
      have nobodyBusy : busy ⟨done.map (⟨·, .finished⟩) ++ rest.map (⟨·, .waiting⟩), state⟩ = 0 := by
        refine List.countP_eq_zero.mpr fun task member => ?_
        rcases List.mem_append.mp member with isDone | waits
        · obtain ⟨_, _, rfl⟩ := List.mem_map.mp isDone
          simp
        · obtain ⟨_, _, rfl⟩ := List.mem_map.mp waits
          simp
      have visited : Reaches setup jobs
          ⟨done.map (⟨·, .finished⟩) ++ ⟨file, .waiting⟩ :: rest.map (⟨·, .waiting⟩), state⟩
          ⟨done.map (⟨·, .finished⟩) ++ ⟨file, .finished⟩ :: rest.map (⟨·, .waiting⟩),
            setup.visit total state file⟩ := by
        refine Setup.Continues.reaches (.visit ordered fileNamed) ?_ (by simp)
          (nobodyBusy.trans_lt someone)
        rw [List.length_map, List.length_map]
        rfl
      have nextOrdered := (setup.visit_touches ordered fileNamed total).ordered
      have goesOn := inductionHypothesis (done ++ [file]) nextOrdered restNamed
      rw [sameTotal, List.map_append, List.append_assoc, List.append_assoc] at goesOn
      rw [Setup.processAll_cons_of_not_cancelled notCancelled]
      exact visited.trans goesOn

/-- A run that takes its files one after another is one of the interleavings. -/
theorem reaches_processAll
    {files : List FoundFile}
    (notCancelled : setup.options.cancelAfter = none)
    (ordered : state.disk.Ordered)
    (named : ∀ file ∈ files, file.place.Named)
    (someone : 0 < jobs) :
    Reaches setup jobs (start state files)
      ⟨files.map (⟨·, .finished⟩),
        processAll setup.migrator setup.options files.length state files⟩ := by
  simpa [start] using reaches_processAll_of_done [] notCancelled ordered named someone

end Pool

end Migration

end ScriptUplift
