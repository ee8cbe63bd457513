import Mathlib.Logic.Relation
import Mathlib.Tactic.Common
import ScriptUplift.Proofs.FileOrder

namespace ScriptUplift

/-!
# Files at the same time

Workers take the files of a run in order, a limited number of them at a time.  Each
takes its file through the same phases, and every phase touches one thing that all of
them share: the disk, the store, the summary or the records.  A step of the pool is
one phase of one worker, so that a run of the pool is any interleaving of them.

`Fits` says how far a worker has come with what was forecast for its file, and
`Advances` says once what a step does to everything that is shared.
-/

namespace Migration

/-- What a worker does next with its file. -/
inductive Phase
  | waiting
  | reading
  | asking (content : Text)
  | passing (content : Text)
  | writing (content : Text) (source : Source) (written : Writing)
  | remembering (content : Text) (source : Source)
  | reporting (outcome : Except Fault (FileResult × Option FileChange))
  | consuming (result : FileResult)
  | counting
  | finished

namespace Phase

/-- The file holds what it will hold in the end. -/
def settled : Phase → Bool
  | .waiting => false
  | .reading => false
  | .asking _ => false
  | .passing _ => false
  | .writing _ _ (.ended _) => true
  | .writing _ _ _ => false
  | _ => true

/-- The store knows what it will know about the file. -/
def remembered : Phase → Bool
  | .reporting _ => true
  | .consuming _ => true
  | .counting => true
  | .finished => true
  | _ => false

/-- The summary counts the file. -/
def counted : Phase → Bool
  | .consuming _ => true
  | .counting => true
  | .finished => true
  | _ => false

/-- The records of the file are gathered. -/
def gathered : Phase → Bool
  | .counting => true
  | .finished => true
  | _ => false

/-- The worker has still to begin. -/
def isWaiting : Phase → Bool
  | .waiting => true
  | _ => false

/-- The worker is through. -/
def isFinished : Phase → Bool
  | .finished => true
  | _ => false

theorem eq_finished
    {phase : Phase}
    (finished : phase.isFinished = true) :
    phase = .finished := by
  cases phase <;> first | rfl | cases finished

/-- The number of the temporary file that is on the disk. -/
def number? : Phase → Option Nat
  | .writing _ _ written => written.number?
  | _ => none

/-- The next step makes a temporary file, unless it fails. -/
def creates : Phase → Bool
  | .writing _ _ (.permitted _) => true
  | _ => false

theorem settled_of_creates
    {phase : Phase}
    (creates : phase.creates = true) :
    phase.settled = false := by
  cases phase with
  | writing content source written =>
      cases written <;> first | rfl | cases creates
  | _ =>
      cases creates

/-- A bound on the number of steps that are left. -/
def remaining : Phase → Nat
  | .waiting => 18
  | .reading => 17
  | .asking _ => 16
  | .passing _ => 15
  | .writing _ _ written => 5 + written.remaining
  | .remembering _ _ => 4
  | .reporting _ => 3
  | .consuming _ => 2
  | .counting => 1
  | .finished => 0

end Phase

/-- What is not determined by the state: the number of a temporary file and the time. -/
structure Choice where
  number : Nat
  now : Int

namespace Setup

variable (setup : Setup) (file : FoundFile)

/-- The replacement of a file by the output of a pass. -/
def writeJob
    (source : Source) :
    WriteJob where
  path := file.place.path
  content := .text source.render
  failure? := setup.failures file.place.path

/-- Take the next step with a file that passed the pipeline and has to be written. -/
def advanceWrite
    (choice : Choice)
    (state : State)
    (content : Text)
    (source : Source) :
    Writing → State × Phase
  | .ended (some fault) =>
      (state, .reporting (.error (.onFile .write file.relative fault)))
  | .ended none =>
      (state, .remembering content source)
  | written =>
      let reached := (setup.writeJob file source).advance choice.number state.disk written
      ({ state with disk := reached.1 }, .writing content source reached.2)

/-- Take the next step with a file. -/
def advance
    (total : Nat)
    (choice : Choice)
    (state : State) :
    Phase → State × Phase
  | .waiting =>
      (state, .reading)
  | .reading =>
      match state.disk.readText file.place.path with
      | .error fault =>
          (state, .reporting (.error (.onFile .read file.relative (.plain fault.message))))
      | .ok content =>
          (state, if setup.options.useCache then .asking content else .passing content)
  | .asking content =>
      match askCache setup.migrator state.store file.relative (fingerprintOf content) with
      | .clean => (state, .reporting (.ok (cachedResult setup.migrator file, none)))
      | .unknown => (state, .passing content)
      | .failed fault =>
          (state.tell (storeWarning "failed to read cache" file.relative fault), .passing content)
  | .passing content =>
      match setup.migrator.pipeline.run file.relative content with
      | (source, .done) =>
          ({ state with
              log := state.log ++ source.report.issues.map (issueEvent file.relative) },
            if setup.rewrites file content source then .writing content source .begun
            else .remembering content source)
      | (_, .failed fault) =>
          (state, .reporting (.error fault))
      | (_, .crashed message) =>
          (state, .reporting (.error
            (.onFile .precondition file.relative (.because .contract ("panic: " ++ message)))))
  | .writing content source written =>
      setup.advanceWrite file choice state content source written
  | .remembering content source =>
      let change := changeOf setup.options file content source.render source.report
      let left := remember { setup.migrator with now := choice.now } setup.options file
        source.report source.render state.store
      ({ state with store := left.1, log := state.log ++ left.2 },
        .reporting (.ok (resultOf file source change.isSome, change)))
  | .reporting (.error fault) =>
      ({ state.tell (failureEvent file.relative fault) with
          summary := state.summary.fail file.relative fault },
        .counting)
  | .reporting (.ok (result, change)) =>
      ({ state with summary := state.summary.merge result change },
        if result.cached then .counting else .consuming result)
  | .consuming result =>
      ({ state with collector := state.collector.consume result }, .counting)
  | .counting =>
      ({ state with
          progress := state.progress ++ [⟨state.progress.length + 1, total, file.relative⟩] },
        .finished)
  | .finished =>
      (state, .finished)

/-- A worker has come to a phase with what was forecast for its file in a state. -/
def Fits
    (start : State) :
    Phase → Prop
  | .waiting => True
  | .reading => True
  | .asking content =>
      setup.options.useCache = true ∧
        setup.forecastAt start file = setup.forecastOf file content start.store
  | .passing content =>
      setup.forecastAt start file = setup.forecastRun file content
  | .writing content source written =>
      setup.rewrites file content source = true ∧
        (∀ mode ∈ written.mode?, mode = start.disk.modeFor file.place.path) ∧
        setup.forecastAt start file =
          match (setup.writeJob file source).verdict written with
          | some fault => forecastUnwritten file fault
          | none => setup.forecastWritten file content source
  | .remembering content source =>
      setup.forecastAt start file = setup.forecastWritten file content source
  | .reporting outcome =>
      (setup.forecastAt start file).outcome = outcome
  | .consuming result =>
      result.cached = false ∧ ∃ change, (setup.forecastAt start file).outcome = .ok (result, change)
  | .counting => True
  | .finished => True

/-- What the entry of a file is in a phase. -/
def kindIn
    (start : State)
    (phase : Phase) :
    Option Node.Kind :=
  if phase.settled then setup.kindAfter start file
  else start.disk.kindAt? (start.disk.seat file.place)

end Setup

/-- The temporary file that a worker has on the disk, beside the entry of its file. -/
def temporary?
    (start : Disk)
    (file : FoundFile)
    (phase : Phase) :
    Option Place :=
  phase.number?.map (start.seat file.place).temporary

/-- What a step with a file does to the disk: nothing but to the file and its temporary file. -/
structure DiskStep
    (place : Place)
    (kind : Option Node.Kind)
    (held next : Option Place)
    (before after : Disk) :
    Prop where
  ordered : after.Ordered
  workDir : after.workDir = before.workDir
  own : after.kindAt? place = kind
  there : ∀ temporary ∈ next, ∃ content mode, after.kindAt? temporary = some (.file content mode)
  made : ∀ temporary ∈ next, temporary ∈ held ∨ before.kindAt? temporary = none
  gone : ∀ temporary ∈ held, temporary ∈ next ∨ after.kindAt? temporary = none
  elsewhere : ∀ other, other ≠ place → other ∉ held → other ∉ next →
    after.kindAt? other = before.kindAt? other

namespace DiskStep

variable {place : Place} {kind : Option Node.Kind} {before after : Disk}

theorem idle
    (ordered : before.Ordered)
    (own : before.kindAt? place = kind) :
    DiskStep place kind none none before before where
  ordered := ordered
  workDir := rfl
  own := own
  there := by simp
  made := by simp
  gone := by simp
  elsewhere := fun _ _ _ _ => rfl

/-- A step that touches the temporary file only. -/
theorem of_changed
    {temporary : Place}
    {held : Option Place}
    {content : Content}
    {mode : Nat}
    (own : before.kindAt? place = kind)
    (different : temporary ≠ place)
    (made : temporary ∈ held ∨ held = none ∧ before.kindAt? temporary = none)
    (changed : before.Changed temporary (some (.file content mode)) after) :
    DiskStep place kind held (some temporary) before after where
  ordered := changed.ordered
  workDir := changed.workDir
  own := (changed.other different.symm).trans own
  there := by
    rintro _ ⟨rfl⟩
    exact ⟨content, mode, changed.own⟩
  made := by
    rintro _ ⟨rfl⟩
    exact made.imp_right And.right
  gone := by
    intro other isHeld
    rcases made with same | ⟨nothing, _⟩
    · exact .inl (Option.some.inj (isHeld.symm.trans same) ▸ rfl)
    · rw [nothing] at isHeld
      cases isHeld
  elsewhere := by
    intro other _ _ notNext
    exact changed.other fun same => notNext (same ▸ rfl)

/-- A step that ends with the temporary file gone. -/
theorem of_removed
    {temporary : Place}
    {middle : Disk}
    (removed : before.Changed temporary none middle)
    (different : temporary ≠ place)
    (replaced : middle.Changed place kind after) :
    DiskStep place kind (some temporary) none before after where
  ordered := replaced.ordered
  workDir := replaced.workDir.trans removed.workDir
  own := replaced.own
  there := by simp
  made := by simp
  gone := by
    rintro _ ⟨rfl⟩
    exact .inr ((replaced.other different).trans removed.own)
  elsewhere := by
    intro other notPlace notHeld _
    rw [replaced.other notPlace, removed.other fun same => notHeld (same ▸ rfl)]

end DiskStep

/-- A value is left alone, or a contribution to it is made. -/
def Contributes
    {α : Type}
    (before after : Bool)
    (contribute : α → α)
    (value left : α) :
    Prop :=
  after = before ∧ left = value ∨ before = false ∧ after = true ∧ left = contribute value

namespace Setup

/-- What a step of a worker does to everything that is shared. -/
structure Advances
    (setup : Setup)
    (file : FoundFile)
    (start state : State)
    (phase : Phase)
    (after : State)
    (next : Phase) :
    Prop where
  fits : setup.Fits file start next
  disk : DiskStep (start.disk.seat file.place) (setup.kindIn file start next)
    (temporary? start.disk file phase) (temporary? start.disk file next) state.disk after.disk
  store : Contributes phase.remembered next.remembered (setup.rememberTimeless start · file)
    state.store.timeless after.store.timeless
  summary : Contributes phase.counted next.counted (setup.countIn start · file) state.summary
    after.summary
  collector : Contributes phase.gathered next.gathered (setup.gatherIn start · file)
    state.collector after.collector
  remaining : next.remaining < phase.remaining

/-- What a worker needs of the state it takes a step in. -/
structure Stands
    (setup : Setup)
    (file : FoundFile)
    (start state : State)
    (phase : Phase)
    (number : Nat) :
    Prop where
  ordered : state.disk.Ordered
  own : state.disk.kindAt? (start.disk.seat file.place) = setup.kindIn file start phase
  there : ∀ temporary ∈ temporary? start.disk file phase,
    ∃ content mode, state.disk.kindAt? temporary = some (.file content mode)
  entry : phase.settled = false →
    ∃ kind, state.disk.Entry file.place (start.disk.seat file.place) kind
  free : phase.creates = true →
    state.disk.kindAt? ((start.disk.seat file.place).temporary number) = none
  found : phase.settled = false → phase.number? = none →
    state.disk.kindFound file.place.path = start.disk.kindFound file.place.path
  answer : phase.remembered = false → ∀ hash,
    askCache setup.migrator state.store file.relative hash =
      askCache setup.migrator start.store file.relative hash
  fits : setup.Fits file start phase

variable {setup : Setup} {file : FoundFile} {start state after : State} {phase next : Phase}

/-- A step on nothing that is shared. -/
theorem Advances.idle
    (ordered : state.disk.Ordered)
    (own : state.disk.kindAt? (start.disk.seat file.place) = setup.kindIn file start next)
    (log : List LogEvent)
    (fits : setup.Fits file start next)
    (noTemporary : phase.number? = none ∧ next.number? = none)
    (remembered : next.remembered = phase.remembered)
    (counted : next.counted = phase.counted)
    (gathered : next.gathered = phase.gathered)
    (remaining : next.remaining < phase.remaining) :
    setup.Advances file start state phase { state with log } next where
  fits := fits
  disk := by
    unfold temporary?
    rw [noTemporary.1, noTemporary.2]
    exact DiskStep.idle ordered own
  store := .inl ⟨remembered, rfl⟩
  summary := .inl ⟨counted, rfl⟩
  collector := .inl ⟨gathered, rfl⟩
  remaining := remaining

/-- The step of a worker that learns that its file is neither written nor remembered. -/
theorem Advances.conclude
    (ordered : state.disk.Ordered)
    (own : state.disk.kindAt? (start.disk.seat file.place) =
      start.disk.kindAt? (start.disk.seat file.place))
    (log : List LogEvent)
    {outcome : Except Fault (FileResult × Option FileChange)}
    (forecast : setup.forecastAt start file = { outcome := outcome })
    (noTemporary : phase.number? = none)
    (remembered : phase.remembered = false)
    (remaining : 3 < phase.remaining) :
    setup.Advances file start state phase { state with log } (.reporting outcome) := by
  have settled : setup.kindIn file start (.reporting outcome) =
      start.disk.kindAt? (start.disk.seat file.place) :=
    kindAfter_of_unwritten (by rw [forecast])
  have counted : phase.counted = false := by
    cases phase <;> first | rfl | cases remembered
  have gathered : phase.gathered = false := by
    cases phase <;> first | rfl | cases remembered
  exact
    { fits := by rw [Fits, forecast]
      disk := by
        unfold temporary?
        rw [noTemporary]
        exact DiskStep.idle ordered (own.trans settled.symm)
      store := by
        refine .inr ⟨remembered, rfl, ?_⟩
        simp only [rememberTimeless, forecast]
        rfl
      summary := .inl ⟨counted.symm, rfl⟩
      collector := .inl ⟨gathered.symm, rfl⟩
      remaining := remaining }

theorem advance_reading
    (total : Nat)
    (choice : Choice)
    (stands : setup.Stands file start state .reading choice.number) :
    setup.Advances file start state .reading (setup.advance file total choice state .reading).1
      (setup.advance file total choice state .reading).2 := by
  have own : state.disk.kindAt? (start.disk.seat file.place) =
      start.disk.kindAt? (start.disk.seat file.place) :=
    stands.own
  have sameText : state.disk.readText file.place.path = start.disk.readText file.place.path :=
    Disk.readText_congr (stands.found rfl rfl)
  have isForecast : setup.forecastAt start file =
      setup.forecastRead file start.store (start.disk.readText file.place.path) :=
    rfl
  rw [advance, sameText]
  cases read : start.disk.readText file.place.path with
  | error fault =>
      rw [read] at isForecast
      exact .conclude stands.ordered own state.log isForecast rfl rfl (by decide)
  | ok text =>
      rw [read] at isForecast
      by_cases asked : setup.options.useCache = true
      · dsimp only
        rw [if_pos asked]
        exact .idle stands.ordered own state.log ⟨asked, isForecast⟩ ⟨rfl, rfl⟩ rfl rfl rfl
          (by simp [Phase.remaining])
      · have unknown : setup.knows file text start.store = false := by
          unfold knows
          rw [Bool.eq_false_iff.mpr asked, Bool.false_and]
        have runs : setup.forecastAt start file = setup.forecastRun file text := by
          rw [isForecast, forecastRead, forecastOf, unknown, if_neg Bool.false_ne_true]
        dsimp only
        rw [if_neg asked]
        exact .idle stands.ordered own state.log runs ⟨rfl, rfl⟩ rfl rfl rfl
          (by simp [Phase.remaining])

theorem advance_asking
    (total : Nat)
    (choice : Choice)
    {content : Text}
    (stands : setup.Stands file start state (.asking content) choice.number) :
    setup.Advances file start state (.asking content)
      (setup.advance file total choice state (.asking content)).1
      (setup.advance file total choice state (.asking content)).2 := by
  obtain ⟨asked, isForecast⟩ := stands.fits
  have own : state.disk.kindAt? (start.disk.seat file.place) =
      start.disk.kindAt? (start.disk.seat file.place) :=
    stands.own
  have isKnown : setup.knows file content start.store =
      (askCache setup.migrator start.store file.relative (fingerprintOf content) == .clean) := by
    unfold knows
    rw [asked, Bool.true_and]
  rw [forecastOf, isKnown] at isForecast
  rw [advance, stands.answer rfl]
  cases answer : askCache setup.migrator start.store file.relative (fingerprintOf content) with
  | clean =>
      rw [answer] at isForecast
      exact .conclude stands.ordered own state.log isForecast rfl rfl (by simp [Phase.remaining])
  | unknown =>
      rw [answer] at isForecast
      exact .idle stands.ordered own state.log isForecast ⟨rfl, rfl⟩ rfl rfl rfl
        (by simp [Phase.remaining])
  | failed fault =>
      rw [answer] at isForecast
      exact .idle stands.ordered own _ isForecast ⟨rfl, rfl⟩ rfl rfl rfl
        (by simp [Phase.remaining])

theorem advance_passing
    (total : Nat)
    (choice : Choice)
    {content : Text}
    (stands : setup.Stands file start state (.passing content) choice.number) :
    setup.Advances file start state (.passing content)
      (setup.advance file total choice state (.passing content)).1
      (setup.advance file total choice state (.passing content)).2 := by
  have own : state.disk.kindAt? (start.disk.seat file.place) =
      start.disk.kindAt? (start.disk.seat file.place) :=
    stands.own
  have isForecast : setup.forecastAt start file = setup.forecastRun file content := stands.fits
  unfold forecastRun at isForecast
  rw [advance]
  cases ran : setup.migrator.pipeline.run file.relative content with
  | mk source ending =>
      rw [ran] at isForecast
      cases ending with
      | failed fault | crashed message =>
          exact .conclude stands.ordered own state.log isForecast rfl rfl
            (by simp [Phase.remaining])
      | done =>
          dsimp only at isForecast ⊢
          unfold forecastPassed at isForecast
          by_cases rewrites : setup.rewrites file content source = true
          · rw [if_pos rewrites] at isForecast ⊢
            have verdict : (setup.writeJob file source).verdict .begun =
                (setup.failures file.place.path).map (·.fault file.place.path) :=
              rfl
            refine .idle stands.ordered own _ ⟨rewrites, by simp [Writing.mode?], ?_⟩ ⟨rfl, rfl⟩
              rfl rfl rfl (by simp [Phase.remaining, Writing.remaining])
            rw [isForecast, verdict]
            cases setup.failures file.place.path <;> rfl
          · rw [if_neg rewrites] at isForecast ⊢
            have settled : setup.kindIn file start (.remembering content source) =
                start.disk.kindAt? (start.disk.seat file.place) := by
              refine kindAfter_of_unwritten ?_
              rw [isForecast, forecastWritten, if_neg rewrites]
            exact .idle stands.ordered (own.trans settled.symm) _ isForecast ⟨rfl, rfl⟩
              rfl rfl rfl (by simp [Phase.remaining])

theorem advance_ended
    (total : Nat)
    (choice : Choice)
    {content : Text}
    {source : Source}
    {fault : Option Fault}
    (stands : setup.Stands file start state (.writing content source (.ended fault)) choice.number) :
    setup.Advances file start state (.writing content source (.ended fault))
      (setup.advance file total choice state (.writing content source (.ended fault))).1
      (setup.advance file total choice state (.writing content source (.ended fault))).2 := by
  obtain ⟨_, _, isForecast⟩ := stands.fits
  have own : state.disk.kindAt? (start.disk.seat file.place) = setup.kindAfter start file :=
    stands.own
  cases fault with
  | none =>
      rw [advance, advanceWrite]
      exact .idle stands.ordered own state.log isForecast ⟨rfl, rfl⟩ rfl rfl rfl
        (by simp [Phase.remaining, Writing.remaining])
  | some fault =>
      have kept := kindAfter_of_unwritten (congrArg (·.written?) isForecast)
      rw [advance, advanceWrite]
      exact .conclude stands.ordered (own.trans kept) state.log isForecast rfl rfl
        (by simp [Phase.remaining, Writing.remaining])

/-- A step of a replacement touches the file and its temporary file only. -/
theorem diskStep_of_move
    {content : Text}
    {source : Source}
    {written reached : Writing}
    {held : Node.Kind}
    {number : Nat}
    {disk left : Disk}
    (ordered : disk.Ordered)
    (found : start.disk.kindAt? (start.disk.seat file.place) = some held)
    (own : disk.kindAt? (start.disk.seat file.place) =
      start.disk.kindAt? (start.disk.seat file.place))
    (free : Phase.creates (.writing content source written) = true →
      disk.kindAt? ((start.disk.seat file.place).temporary number) = none)
    (known : ∀ asked ∈ written.mode?, asked = start.disk.modeFor file.place.path)
    (fits : setup.Fits file start (.writing content source reached))
    (moves : WriteMove (setup.writeJob file source) (start.disk.seat file.place)
      (start.disk.modeFor file.place.path) number disk written left reached) :
    DiskStep (start.disk.seat file.place)
      (setup.kindIn file start (.writing content source reached))
      (temporary? start.disk file (.writing content source written))
      (temporary? start.disk file (.writing content source reached)) disk left := by
  obtain ⟨rewrites, _, isForecast⟩ := fits
  have different (own : Nat) := (start.disk.seat file.place).temporary_ne own
  cases moves with
  | permit =>
      exact .idle ordered own
  | refuse fails =>
      have kept := kindAfter_of_unwritten (congrArg (·.written?) isForecast)
      exact .idle ordered (own.trans kept.symm)
  | create works made =>
      exact .of_changed own (different _) (.inr ⟨rfl, free rfl⟩) made
  | proceed works follows touched =>
      exact .of_changed own (different _) (.inl rfl) touched
  | spoil fails touched =>
      exact .of_changed own (different _) (.inl rfl) touched
  | commit works removed replaced =>
      -- the permissions were looked up when the file was still the same
      rw [known _ rfl] at replaced
      have settled : setup.kindAfter start file =
          some (.file (setup.writeJob file source).content
            (start.disk.modeFor file.place.path)) := by
        rw [kindAfter_of_leaf found, isForecast]
        simp [WriteJob.verdict, forecastWritten, rewrites, writeJob, Forecast.kind]
      rw [← settled] at replaced
      exact .of_removed removed (different _) replaced
  | cleanUp removed =>
      have kept := kindAfter_of_unwritten (congrArg (·.written?) isForecast)
      have same := (removed.other (different _).symm).trans (own.trans kept.symm)
      exact .of_removed removed (different _) (.idle removed.ordered same)

/-- Until a write has ended, the next step is one of its own. -/
theorem advance_writing_eq
    (total : Nat)
    (choice : Choice)
    (state : State)
    (content : Text)
    {source : Source}
    {written : Writing}
    (unfinished : ∀ fault, written ≠ .ended fault) :
    setup.advance file total choice state (.writing content source written) =
      ({ state with
          disk := ((setup.writeJob file source).advance choice.number state.disk written).1 },
        .writing content source
          ((setup.writeJob file source).advance choice.number state.disk written).2) := by
  cases written with
  | ended fault =>
      exact absurd rfl (unfinished fault)
  | begun | permitted | holding | failed =>
      rfl

theorem advance_writing
    (total : Nat)
    (choice : Choice)
    {content : Text}
    {source : Source}
    {written : Writing}
    (unfinished : ∀ fault, written ≠ .ended fault)
    (stands : setup.Stands file start state (.writing content source written) choice.number) :
    setup.Advances file start state (.writing content source written)
      (setup.advance file total choice state (.writing content source written)).1
      (setup.advance file total choice state (.writing content source written)).2 := by
  obtain ⟨rewrites, known, isForecast⟩ := stands.fits
  have unsettled : Phase.settled (.writing content source written) = false := by
    cases written with
    | ended fault =>
        exact absurd rfl (unfinished fault)
    | begun | permitted | holding | failed =>
        rfl
  -- until the replacement has ended, the file holds what it held
  have own : state.disk.kindAt? (start.disk.seat file.place) =
      start.disk.kindAt? (start.disk.seat file.place) := by
    rw [stands.own, kindIn, unsettled, if_neg Bool.false_ne_true]
  obtain ⟨held, entry⟩ := stands.entry unsettled
  have moves : WriteMove (setup.writeJob file source) (start.disk.seat file.place)
      (start.disk.modeFor file.place.path) choice.number state.disk written
      ((setup.writeJob file source).advance choice.number state.disk written).1
      ((setup.writeJob file source).advance choice.number state.disk written).2 := by
    refine WriteJob.advance_moves stands.ordered rfl entry ?_ ?_ ?_ unfinished
    · rintro rfl
      exact Disk.modeFor_congr (stands.found rfl rfl)
    · rintro asked rfl
      exact stands.free rfl
    · intro number isNumber
      exact stands.there _ (Option.mem_map.mpr ⟨number, isNumber, rfl⟩)
  rw [advance_writing_eq total choice state content unfinished]
  generalize (setup.writeJob file source).advance choice.number state.disk written = reached
    at moves ⊢
  obtain ⟨left, next⟩ := reached
  have fits : setup.Fits file start (.writing content source next) := by
    refine ⟨rewrites, moves.mode?_eq known, ?_⟩
    rw [isForecast, moves.verdict_eq]
  exact
    { fits := fits
      disk := diskStep_of_move stands.ordered (own.symm.trans entry.found) own stands.free known fits
        moves
      store := .inl ⟨rfl, rfl⟩
      summary := .inl ⟨rfl, rfl⟩
      collector := .inl ⟨rfl, rfl⟩
      remaining := Nat.add_lt_add_left moves.remaining_lt 5 }

theorem advance_remembering
    (total : Nat)
    (choice : Choice)
    {content : Text}
    {source : Source}
    (stands : setup.Stands file start state (.remembering content source) choice.number) :
    setup.Advances file start state (.remembering content source)
      (setup.advance file total choice state (.remembering content source)).1
      (setup.advance file total choice state (.remembering content source)).2 := by
  have isForecast : setup.forecastAt start file = setup.forecastWritten file content source :=
    stands.fits
  rw [advance]
  exact
    { fits := by rw [Fits, isForecast, forecastWritten]
      disk := .idle stands.ordered stands.own
      store := by
        refine .inr ⟨rfl, rfl, ?_⟩
        dsimp only
        rw [setup.remember_eq file content, Forecast.timeless_remember, rememberTimeless,
          isForecast]
      summary := .inl ⟨rfl, rfl⟩
      collector := .inl ⟨rfl, rfl⟩
      remaining := by simp [Phase.remaining] }

theorem advance_reporting
    (total : Nat)
    (choice : Choice)
    {outcome : Except Fault (FileResult × Option FileChange)}
    (stands : setup.Stands file start state (.reporting outcome) choice.number) :
    setup.Advances file start state (.reporting outcome)
      (setup.advance file total choice state (.reporting outcome)).1
      (setup.advance file total choice state (.reporting outcome)).2 := by
  have isOutcome : (setup.forecastAt start file).outcome = outcome := stands.fits
  cases outcome with
  | error fault =>
      rw [advance]
      exact
        { fits := trivial
          disk := .idle stands.ordered stands.own
          store := .inl ⟨rfl, rfl⟩
          summary := by
            refine .inr ⟨rfl, rfl, ?_⟩
            simp only [countIn, Forecast.count, isOutcome]
          collector := by
            refine .inr ⟨rfl, rfl, ?_⟩
            simp only [gatherIn, Forecast.gather, isOutcome]
            rfl
          remaining := by simp [Phase.remaining] }
  | ok pair =>
      obtain ⟨result, change⟩ := pair
      have counted : state.summary.merge result change = setup.countIn start state.summary file := by
        simp only [countIn, Forecast.count, isOutcome]
      rw [advance]
      cases cached : result.cached with
      | true =>
          exact
            { fits := trivial
              disk := .idle stands.ordered stands.own
              store := .inl ⟨rfl, rfl⟩
              summary := .inr ⟨rfl, rfl, counted⟩
              collector := by
                refine .inr ⟨rfl, rfl, ?_⟩
                simp only [gatherIn, Forecast.gather, isOutcome, cached, if_true]
              remaining := by simp [Phase.remaining] }
      | false =>
          exact
            { fits := ⟨cached, change, isOutcome⟩
              disk := .idle stands.ordered stands.own
              store := .inl ⟨rfl, rfl⟩
              summary := .inr ⟨rfl, rfl, counted⟩
              collector := .inl ⟨rfl, rfl⟩
              remaining := by simp [Phase.remaining] }

theorem advance_consuming
    (total : Nat)
    (choice : Choice)
    {result : FileResult}
    (stands : setup.Stands file start state (.consuming result) choice.number) :
    setup.Advances file start state (.consuming result)
      (setup.advance file total choice state (.consuming result)).1
      (setup.advance file total choice state (.consuming result)).2 := by
  obtain ⟨notCached, change, isOutcome⟩ := stands.fits
  rw [advance]
  exact
    { fits := trivial
      disk := .idle stands.ordered stands.own
      store := .inl ⟨rfl, rfl⟩
      summary := .inl ⟨rfl, rfl⟩
      collector := by
        refine .inr ⟨rfl, rfl, ?_⟩
        simp only [gatherIn, Forecast.gather, isOutcome, notCached, if_neg Bool.false_ne_true]
      remaining := by simp [Phase.remaining] }

/-- Every step of a worker does its part of what was forecast and nothing else. -/
theorem advance_advances
    (total : Nat)
    (choice : Choice)
    (unfinished : phase ≠ .finished)
    (stands : setup.Stands file start state phase choice.number) :
    setup.Advances file start state phase (setup.advance file total choice state phase).1
      (setup.advance file total choice state phase).2 := by
  cases phase with
  | waiting =>
      have own : state.disk.kindAt? (start.disk.seat file.place) =
          setup.kindIn file start .reading :=
        stands.own
      exact .idle stands.ordered own state.log trivial ⟨rfl, rfl⟩ rfl rfl rfl (by decide)
  | reading =>
      exact advance_reading total choice stands
  | asking content =>
      exact advance_asking total choice stands
  | passing content =>
      exact advance_passing total choice stands
  | writing content source written =>
      by_cases ended : ∃ fault, written = .ended fault
      · obtain ⟨fault, rfl⟩ := ended
        exact advance_ended total choice stands
      · exact advance_writing total choice (fun fault same => ended ⟨fault, same⟩) stands
  | remembering content source =>
      exact advance_remembering total choice stands
  | reporting outcome =>
      exact advance_reporting total choice stands
  | consuming result =>
      exact advance_consuming total choice stands
  | counting =>
      rw [advance]
      exact
        { fits := trivial
          disk := .idle stands.ordered stands.own
          store := .inl ⟨rfl, rfl⟩
          summary := .inl ⟨rfl, rfl⟩
          collector := .inl ⟨rfl, rfl⟩
          remaining := by simp [Phase.remaining] }
  | finished =>
      exact absurd rfl unfinished

end Setup

/-- The first free number for a temporary file, and the time of the run. -/
def Setup.firstChoice
    (setup : Setup)
    (file : FoundFile)
    (state : State) :
    Choice where
  number := state.disk.freshNumber (Path.parent file.place.path) (Path.base file.place.path)
  now := setup.migrator.now

namespace Setup

variable {file : FoundFile} {state : State} {place : Place} {kind : Node.Kind}

theorem free_firstChoice
    (setup : Setup)
    (ordered : state.disk.Ordered)
    (entry : state.disk.Entry file.place place kind) :
    state.disk.kindAt? (place.temporary (setup.firstChoice file state).number) = none := by
  dsimp only [firstChoice]
  exact entry.kindAt?_temporary_freshNumber ordered

theorem unused_firstChoice
    (setup : Setup)
    (ordered : state.disk.Ordered)
    (entry : state.disk.Entry file.place place kind) :
    state.disk.taken (Disk.temporaryPath (Path.parent file.place.path)
      (Path.base file.place.path) (setup.firstChoice file state).number) = false := by
  obtain ⟨_, _, _, _, _, _, _, isTaken⟩ :=
    entry.exists_temporary ordered (setup.firstChoice file state).number
  rw [isTaken, setup.free_firstChoice ordered entry]
  rfl

end Setup

/-- A file and how far its worker has come. -/
structure Task where
  file : FoundFile
  phase : Phase

/-- The workers of a run and what they share. -/
structure Pool where
  tasks : List Task
  state : State

namespace Pool

/-- The pool before the first step. -/
def start
    (state : State)
    (files : List FoundFile) :
    Pool where
  tasks := files.map fun file => ⟨file, .waiting⟩
  state := state

/-- All files are done. -/
def Finished
    (pool : Pool) :
    Prop :=
  ∀ task ∈ pool.tasks, task.phase = .finished

/-- The number of files that workers are busy with. -/
def busy
    (pool : Pool) :
    Nat :=
  pool.tasks.countP fun task =>
    match task.phase with
    | .waiting => false
    | .finished => false
    | _ => true

/--
One worker takes a step.  A file is begun when no file before it waits and a worker is
free; a temporary file that is made gets a name that is not in use.
-/
inductive Step
    (setup : Setup)
    (jobs : Nat) :
    Pool → Pool → Prop
  | step {earlier later : List Task} {task : Task} {state : State} (choice : Choice)
      (unfinished : task.phase ≠ .finished)
      (admitted : task.phase = .waiting →
        (∀ other ∈ earlier, other.phase ≠ .waiting) ∧
          busy ⟨earlier ++ task :: later, state⟩ < jobs)
      (unused : task.phase.creates = true → state.disk.taken
        (Disk.temporaryPath (Path.parent task.file.place.path) (Path.base task.file.place.path)
          choice.number) = false) :
      Step setup jobs ⟨earlier ++ task :: later, state⟩
        ⟨earlier ++
            ⟨task.file, (setup.advance task.file (earlier ++ task :: later).length choice state
              task.phase).2⟩ :: later,
          (setup.advance task.file (earlier ++ task :: later).length choice state task.phase).1⟩

/-- Steps in any order. -/
def Reaches
    (setup : Setup)
    (jobs : Nat) :
    Pool → Pool → Prop :=
  Relation.ReflTransGen (Step setup jobs)

/-! ## Runs that are told turn by turn -/

section

variable (setup : Setup) (jobs : Nat)

/-- The worker on the file at a position takes its next step, if it may. -/
def take?
    (pool : Pool)
    (position : Nat) :
    Option Pool :=
  match pool.tasks[position]? with
  | none =>
      none
  | some task =>
      let choice := setup.firstChoice task.file pool.state
      let admitted :=
        (pool.tasks.take position).all (!·.phase.isWaiting) && decide (pool.busy < jobs)
      let taken := pool.state.disk.taken
        (Disk.temporaryPath (Path.parent task.file.place.path) (Path.base task.file.place.path)
          choice.number)
      if task.phase.isFinished || (task.phase.isWaiting && !admitted) ||
          (task.phase.creates && taken) then
        none
      else
        let moved := setup.advance task.file pool.tasks.length choice pool.state task.phase
        some ⟨pool.tasks.set position ⟨task.file, moved.2⟩, moved.1⟩

/-- The workers take turns, each told by the position of its file. -/
def follow?
    (pool : Pool) :
    List Nat → Option Pool
  | [] =>
      some pool
  | position :: rest =>
      (pool.take? setup jobs position).bind (·.follow? rest)

variable {setup jobs}

/-- A turn that is taken is a step of the pool. -/
theorem step_of_take?
    {pool next : Pool}
    {position : Nat}
    (taken : pool.take? setup jobs position = some next) :
    Step setup jobs pool next := by
  obtain ⟨tasks, state⟩ := pool
  unfold take? at taken
  dsimp only at taken
  cases isTask : tasks[position]? with
  | none =>
      rw [isTask] at taken
      cases taken
  | some task =>
      obtain ⟨inside, rfl⟩ := List.getElem?_eq_some_iff.mp isTask
      rw [isTask] at taken
      dsimp only at taken
      split at taken
      · cases taken
      · rename_i allowed
        obtain rfl := Option.some.inj taken
        simp only [Bool.or_eq_true, Bool.and_eq_true, Bool.not_eq_true', not_or, not_and,
          Bool.not_eq_true, Bool.not_eq_false, List.all_eq_true, decide_eq_true_eq] at allowed
        obtain ⟨⟨notFinished, admitted⟩, unused⟩ := allowed
        have parts : tasks =
            tasks.take position ++ tasks[position] :: tasks.drop (position + 1) := by
          rw [List.cons_getElem_drop_succ, List.take_append_drop]
        have step : Step setup jobs
            ⟨tasks.take position ++ tasks[position] :: tasks.drop (position + 1), state⟩ _ :=
          .step (setup.firstChoice tasks[position].file state) ?_ ?_ unused
        · rw [← parts] at step
          rw [List.set_eq_take_append_cons_drop, if_pos inside]
          exact step
        · intro finished
          rw [finished] at notFinished
          cases notFinished
        · intro waits
          rw [← parts]
          obtain ⟨nobodyWaits, few⟩ := admitted (by rw [waits]; rfl)
          refine ⟨fun other member otherWaits => ?_, few⟩
          have still := nobodyWaits other member
          rw [otherWaits] at still
          cases still

/-- The turns of a schedule lead to where it ends. -/
theorem reaches_of_follow?
    {schedule : List Nat}
    {pool last : Pool}
    (followed : pool.follow? setup jobs schedule = some last) :
    Reaches setup jobs pool last := by
  induction schedule generalizing pool with
  | nil =>
      obtain rfl := Option.some.inj followed
      exact .refl
  | cons position rest inductionHypothesis =>
      obtain ⟨next, taken, onward⟩ := Option.bind_eq_some_iff.mp followed
      exact .head (step_of_take? taken) (inductionHypothesis onward)

end

end Pool

end Migration

end ScriptUplift
