import Mathlib.Data.List.Basic
import Mathlib.Tactic.Common
import ScriptUplift.Proofs.BigEndian
import ScriptUplift.Proofs.SortedEntries
import ScriptUplift.State.Database

namespace ScriptUplift

/-!
# What a prepared database is trusted with

Preparation never touches the history.  It empties the cache exactly when a newer
program or another configuration wrote it, and asks for nothing more afterwards.
So whatever the configurations of a sequence of sessions are, a record in the
cache was put there under one whose fingerprint is the stored one.
-/

theorem hexText_ne_empty
    {bytes : List UInt8}
    (some : bytes ≠ []) :
    hexText bytes ≠ "" := by
  obtain ⟨first, rest, rfl⟩ := List.exists_cons_of_ne_nil some
  intro empty
  have characters := congrArg String.toList empty
  simp [hexText] at characters

theorem Sha256.length_digest
    (message : List UInt8) :
    (digest message).length = 32 := by
  simp [digest]

/-- A fingerprint is never mistaken for the lack of one. -/
theorem Config.fingerprint_ne_empty
    (config : Config) :
    config.fingerprint ≠ "" := by
  apply hexText_ne_empty
  rw [← List.length_pos_iff, List.length_take, Sha256.length_digest]
  decide

namespace Database

theorem needsRebuild_versionPlan_iff
    (version : Int) :
    (versionPlan version).needsRebuild = true ↔ currentVersion < version := by
  unfold versionPlan currentVersion
  split_ifs <;> simp only [true_iff, false_iff] <;> omega

theorem needsMigration_versionPlan_iff
    (version : Int) :
    (versionPlan version).needsMigration = true ↔ version < currentVersion := by
  unfold versionPlan currentVersion
  split_ifs <;> simp only [true_iff, false_iff] <;> omega

variable (database : Database) (config : Config)

/-- The cache was written by a newer program or under another configuration. -/
def Outdated : Prop :=
  currentVersion < database.schema.version ∨
    (database.configHash ≠ "" ∧ database.configHash ≠ config.fingerprint)

instance : Decidable (database.Outdated config) :=
  inferInstanceAs (Decidable (_ ∨ _))

theorem needsRebuild_plan_iff :
    (database.plan config).needsRebuild = true ↔ database.Outdated config := by
  have changedIff :
      rulesChanged database.schema config.fingerprint = true ↔
        database.configHash ≠ "" ∧ database.configHash ≠ config.fingerprint := by
    simp [rulesChanged, schema]
  unfold plan Outdated
  rw [← needsRebuild_versionPlan_iff, ← changedIff]
  dsimp only
  split_ifs <;> simp_all

theorem needsMigration_plan_iff :
    (database.plan config).needsMigration = true ↔
      database.schema.version < currentVersion := by
  unfold plan
  rw [← needsMigration_versionPlan_iff]
  dsimp only
  split_ifs <;> rfl

/-- The schema a preparation leaves: the current one with the fingerprint, or what was there. -/
theorem prepare_cases :
    (database.schema.version = currentVersion ∧
        (database.configHash = "" ∨ database.configHash = config.fingerprint) ∧
        (database.prepare config).2 = database) ∨
      (database.prepare config).2 =
        { database with
          files := if database.Outdated config then [] else database.files
          version := some (.sound currentVersion)
          configHash := config.fingerprint } := by
  have rebuildIff := database.needsRebuild_plan_iff config
  have migrationIff := database.needsMigration_plan_iff config
  unfold prepare
  dsimp only
  cases rebuild : (database.plan config).needsRebuild with
  | true =>
      have outdated : database.Outdated config := rebuildIff.mp rebuild
      rw [if_pos outdated]
      exact .inr rfl
  | false =>
      have recent : ¬ database.Outdated config := by
        rw [← rebuildIff, rebuild]
        decide
      rw [if_neg recent]
      cases migration : (database.plan config).needsMigration with
      | true =>
          exact .inr rfl
      | false =>
          have notOlder : ¬ database.schema.version < currentVersion := by
            rw [← migrationIff, migration]
            decide
          unfold Outdated at recent
          refine .inl ⟨by omega, ?_, rfl⟩
          by_cases hashed : database.configHash = ""
          · exact .inl hashed
          · exact .inr (by_contra fun different => recent (.inr ⟨hashed, different⟩))

/-- Preparation keeps the history, empties an outdated cache and asks for nothing more. -/
theorem prepare_spec :
    let prepared := (database.prepare config).2
    prepared.runs = database.runs ∧
      prepared.sequence = database.sequence ∧
      prepared.files = (if database.Outdated config then [] else database.files) ∧
      (prepared.plan config).needsMigration = false ∧
      (prepared.plan config).needsRebuild = false := by
  intro prepared
  have settled
      (version : prepared.schema.version = currentVersion)
      (hashed : prepared.configHash = "" ∨ prepared.configHash = config.fingerprint) :
      (prepared.plan config).needsMigration = false ∧
        (prepared.plan config).needsRebuild = false := by
    rw [← Bool.not_eq_true, ← Bool.not_eq_true, needsMigration_plan_iff, needsRebuild_plan_iff,
      Outdated, version]
    refine ⟨Int.lt_irrefl _, ?_⟩
    rintro (newer | ⟨known, different⟩)
    · exact Int.lt_irrefl _ newer
    · exact hashed.elim known different
  rcases database.prepare_cases config with ⟨version, hashed, same⟩ | changed
  · have recent : ¬ database.Outdated config := by
      rintro (newer | ⟨known, different⟩)
      · omega
      · exact hashed.elim known different
    rw [if_neg recent]
    have isSame : prepared = database := same
    rw [isSame] at settled ⊢
    exact ⟨rfl, rfl, rfl, settled version hashed⟩
  · have isChanged : prepared = _ := changed
    refine ⟨?_, ?_, ?_, settled ?_ (.inr ?_)⟩ <;> rw [isChanged]
    rfl

end Database

/-- A change of a database between two preparations. -/
inductive StateChange
  | put (key : String) (record : FileRecord)
  | delete (key : String)
  | addRun (run : RunRecord)
  deriving Repr, DecidableEq

/-- The key of the cache that a change is about. -/
def StateChange.key? : StateChange → Option String
  | .put key _ | .delete key => some key
  | .addRun _ => none

/-- A preparation and the changes after it. -/
structure StateSession where
  config : Config
  changes : List StateChange
  deriving Repr, DecidableEq

/-- The changes of sessions in order, each with the configuration it was made under. -/
def StateSession.log
    (sessions : List StateSession) :
    List (Config × StateChange) :=
  sessions.flatMap fun session => session.changes.map (session.config, ·)

namespace Database

/-- Make a change; a record that cannot be put changes nothing. -/
def change
    (database : Database) :
    StateChange → Database
  | .put key record =>
      match database.put key record with
      | .ok after => after
      | .error _ => database
  | .delete key =>
      database.delete key
  | .addRun run =>
      (database.addRun run).2

/-- Prepare a database and make the changes of a session. -/
def hold
    (database : Database)
    (session : StateSession) :
    Database :=
  session.changes.foldl change (database.prepare session.config).2

/-- A new database after sessions. -/
def afterSessions
    (sessions : List StateSession) :
    Database :=
  sessions.foldl hold {}

/-- What a key holds is what the last change of the key put, under the stored fingerprint. -/
def Trusted
    (database : Database)
    (log : List (Config × StateChange)) :
    Prop :=
  ∀ key held, database.files.lookup key = some held →
    ∃ earlier config record later,
      log = earlier ++ (config, .put key record) :: later ∧
        (∀ entry ∈ later, entry.2.key? ≠ some key) ∧
        keyFault? key = none ∧
        held = .sound record.stored ∧
        config.fingerprint = database.configHash

/-- A put record is held, unless its key cannot be written. -/
theorem change_put
    (database : Database)
    (key : String)
    (record : FileRecord) :
    database.change (.put key record) =
      if keyFault? key = none then
        { database with files := Entries.insert key (.sound record.stored) database.files }
      else
        database := by
  simp only [change, put, store]
  cases keyFault? key <;> rfl

@[simp] theorem configHash_change
    (database : Database)
    (made : StateChange) :
    (database.change made).configHash = database.configHash := by
  cases made with
  | put key record =>
      rw [change_put]
      split <;> rfl
  | delete key =>
      rfl
  | addRun run =>
      rfl

namespace Trusted

variable {database : Database} {log : List (Config × StateChange)}

/-- A change about another key, or about none, comes after what a key holds. -/
theorem extend
    (trusted : database.Trusted log)
    {key : String}
    {held : Stored FileRecord}
    (found : database.files.lookup key = some held)
    (config : Config)
    {made : StateChange}
    (other : keyFault? key = none → made.key? ≠ some key) :
    ∃ earlier writer record later,
      log ++ [(config, made)] = earlier ++ (writer, .put key record) :: later ∧
        (∀ entry ∈ later, entry.2.key? ≠ some key) ∧
        keyFault? key = none ∧
        held = .sound record.stored ∧
        writer.fingerprint = database.configHash := by
  obtain ⟨earlier, writer, record, later, shape, untouched, keyed, isHeld, sameHash⟩ :=
    trusted key held found
  refine ⟨earlier, writer, record, later ++ [(config, made)], ?_, ?_, keyed, isHeld, sameHash⟩
  · simp [shape]
  · intro entry member
    rcases List.mem_append.mp member with isLater | isNew
    · exact untouched entry isLater
    · rw [List.mem_singleton.mp isNew]
      exact other keyed

/-- A change under the configuration of the stored fingerprint keeps the cache trusted. -/
theorem change
    (trusted : database.Trusted log)
    {config : Config}
    (current : config.fingerprint = database.configHash)
    (made : StateChange) :
    (database.change made).Trusted (log ++ [(config, made)]) := by
  intro key held found
  rw [configHash_change]
  cases made with
  | put changed record =>
      rw [change_put] at found
      split at found
      · rename_i accepted
        rw [Entries.lookup_insert] at found
        split at found
        · rename_i same
          subst same
          refine ⟨log, config, record, [], rfl, by simp, accepted, ?_, current⟩
          exact (Option.some.inj found).symm
        · rename_i different
          exact trusted.extend found config fun _ same => different (Option.some.inj same).symm
      · rename_i refused
        refine trusted.extend found config ?_
        rintro keyed same
        rw [← Option.some.inj same] at keyed
        exact refused keyed
  | delete forgotten =>
      unfold Database.change Database.delete at found
      dsimp only at found
      rw [Entries.lookup_erase] at found
      split at found
      · cases found
      · rename_i different
        exact trusted.extend found config fun _ same => different (Option.some.inj same).symm
  | addRun run =>
      exact trusted.extend found config fun _ => nofun

/-- So do many changes. -/
theorem changes
    (trusted : database.Trusted log)
    {config : Config}
    (current : config.fingerprint = database.configHash)
    (made : List StateChange) :
    (made.foldl Database.change database).Trusted (log ++ made.map (config, ·)) ∧
      (made.foldl Database.change database).configHash = database.configHash := by
  induction made generalizing database log with
  | nil =>
      simpa using trusted
  | cons first rest inductionHypothesis =>
      have firstHash := configHash_change database first
      obtain ⟨restTrusted, restHash⟩ :=
        inductionHypothesis (trusted.change current first) (current.trans firstHash.symm)
      rw [List.append_assoc] at restTrusted
      exact ⟨restTrusted, restHash.trans firstHash⟩

end Trusted

/-- A database that is new or was prepared: without a fingerprint it holds no version. -/
def Hashed
    (database : Database) :
    Prop :=
  database.configHash = "" → database.version = none

/-- A preparation keeps the cache trusted and stores the fingerprint. -/
theorem Trusted.prepare
    {database : Database}
    {log : List (Config × StateChange)}
    (trusted : database.Trusted log)
    (hashed : database.Hashed)
    (config : Config) :
    (database.prepare config).2.Trusted log ∧
      config.fingerprint = (database.prepare config).2.configHash := by
  rcases database.prepare_cases config with ⟨version, known, same⟩ | changed
  · rw [same]
    refine ⟨trusted, ?_⟩
    rcases known with unknown | sameHash
    · have new := hashed unknown
      simp [schema, new, currentVersion] at version
    · exact sameHash.symm
  · rw [changed]
    refine ⟨?_, rfl⟩
    intro key held found
    dsimp only at found ⊢
    split at found
    · cases found
    · -- The cache is kept only if the stored fingerprint is this one, or there was none.
      rename_i recent
      obtain ⟨earlier, writer, record, later, shape, untouched, keyed, isHeld, sameHash⟩ :=
        trusted key held found
      refine ⟨earlier, writer, record, later, shape, untouched, keyed, isHeld, ?_⟩
      have present : database.configHash ≠ "" := by
        rw [← sameHash]
        exact writer.fingerprint_ne_empty
      rw [sameHash]
      by_contra different
      exact recent (.inr ⟨present, different⟩)

/-- A session keeps the cache trusted and leaves its own fingerprint. -/
theorem Trusted.hold
    {database : Database}
    {log : List (Config × StateChange)}
    (trusted : database.Trusted log)
    (hashed : database.Hashed)
    (session : StateSession) :
    (database.hold session).Trusted (log ++ session.changes.map (session.config, ·)) ∧
      (database.hold session).Hashed := by
  obtain ⟨prepared, current⟩ := trusted.prepare hashed session.config
  obtain ⟨held, sameHash⟩ := prepared.changes current session.changes
  refine ⟨held, ?_⟩
  intro unknown
  have isFingerprint : (database.hold session).configHash = session.config.fingerprint :=
    sameHash.trans current.symm
  exact absurd (isFingerprint.symm.trans unknown) session.config.fingerprint_ne_empty

/-- Over sessions the cache stays trusted. -/
theorem trusted_afterSessions
    (sessions : List StateSession) :
    (afterSessions sessions).Trusted (StateSession.log sessions) := by
  have run {database : Database} {log : List (Config × StateChange)}
      (trusted : database.Trusted log) (hashed : database.Hashed) :
      (sessions.foldl Database.hold database).Trusted (log ++ StateSession.log sessions) := by
    induction sessions generalizing database log with
    | nil =>
        simpa [StateSession.log] using trusted
    | cons session rest inductionHypothesis =>
        obtain ⟨held, heldHashed⟩ := trusted.hold hashed session
        have whole := inductionHypothesis held heldHashed
        rwa [List.append_assoc] at whole
  have new : Trusted {} [] := by
    intro key held found
    cases found
  exact run new fun _ => rfl

/-- Two databases have the same history. -/
def SameHistory
    (first second : Database) :
    Prop :=
  first.runs = second.runs ∧ first.sequence = second.sequence

/-- A change does to the history what it does to the same history elsewhere. -/
theorem SameHistory.change
    {first second : Database}
    (same : first.SameHistory second)
    (made : StateChange) :
    (first.change made).SameHistory (second.change made) := by
  cases made with
  | put key record =>
      rw [change_put, change_put]
      split <;> exact same
  | delete key =>
      exact same
  | addRun run =>
      obtain ⟨sameRuns, sameSequence⟩ := same
      simp only [SameHistory, Database.change, Database.addRun, sameRuns, sameSequence, and_self]

theorem SameHistory.changes
    {first second : Database}
    (same : first.SameHistory second)
    (made : List StateChange) :
    (made.foldl Database.change first).SameHistory (made.foldl Database.change second) := by
  induction made generalizing first second with
  | nil =>
      exact same
  | cons change rest inductionHypothesis =>
      exact inductionHypothesis (same.change change)

/-- Over sessions the history is what their changes alone write, as if nothing was prepared. -/
theorem sameHistory_afterSessions
    (sessions : List StateSession) :
    (afterSessions sessions).SameHistory
      ((sessions.flatMap (·.changes)).foldl Database.change {}) := by
  have run {first second : Database} (same : first.SameHistory second) :
      (sessions.foldl Database.hold first).SameHistory
        ((sessions.flatMap (·.changes)).foldl Database.change second) := by
    induction sessions generalizing first second with
    | nil =>
        exact same
    | cons session rest inductionHypothesis =>
        rw [List.foldl_cons, List.flatMap_cons, List.foldl_append]
        obtain ⟨keepsRuns, keepsSequence, _⟩ := first.prepare_spec session.config
        have prepared : (first.prepare session.config).2.SameHistory second :=
          ⟨keepsRuns.trans same.1, keepsSequence.trans same.2⟩
        exact inductionHypothesis (prepared.changes session.changes)
  exact run ⟨rfl, rfl⟩

/--
Whatever a database holds, its preparation keeps the history, empties the cache
exactly when a newer program or another configuration wrote it, and asks for
nothing more.  So over every sequence of sessions on a new database the history
is what was added to it, and what a key of the cache holds was put there last,
under a configuration whose fingerprint is the stored one.
-/
theorem preparation_keeps_history_and_trusted_cache :
    (∀ (database : Database) (config : Config),
      let prepared := (database.prepare config).2
      prepared.runs = database.runs ∧
        prepared.sequence = database.sequence ∧
        prepared.files =
          (if currentVersion < database.schema.version ∨
              (database.configHash ≠ "" ∧ database.configHash ≠ config.fingerprint) then
            []
          else
            database.files) ∧
        (prepared.plan config).needsMigration = false ∧
        (prepared.plan config).needsRebuild = false) ∧
      ∀ sessions : List StateSession,
        (afterSessions sessions).SameHistory
            ((sessions.flatMap (·.changes)).foldl Database.change {}) ∧
          ∀ key held, (afterSessions sessions).files.lookup key = some held →
            ∃ earlier config record later,
              StateSession.log sessions = earlier ++ (config, .put key record) :: later ∧
                (∀ entry ∈ later, entry.2.key? ≠ some key) ∧
                held = .sound record.stored ∧
                config.fingerprint = (afterSessions sessions).configHash := by
  refine ⟨fun database config => database.prepare_spec config, ?_⟩
  intro sessions
  refine ⟨sameHistory_afterSessions sessions, ?_⟩
  intro key held found
  obtain ⟨earlier, config, record, later, shape, untouched, _, isHeld, sameHash⟩ :=
    trusted_afterSessions sessions key held found
  exact ⟨earlier, config, record, later, shape, untouched, isHeld, sameHash⟩

/-- Without member order the record of the first session is gone and only the new one is held. -/
theorem preparation_drops_record_of_other_configuration :
    let ordered : StateSession := ⟨{}, [.put "a.gd" ⟨"h", "r", 0⟩]⟩
    let unordered : StateSession := ⟨{ canonical := false }, [.put "b.gd" ⟨"k", "r", 0⟩]⟩
    (afterSessions [ordered]).files.lookup "a.gd" = some (.sound ⟨"h", "r", 0⟩) ∧
      (afterSessions [ordered, unordered]).files.lookup "a.gd" = none ∧
      (afterSessions [ordered, unordered]).files.lookup "b.gd" = some (.sound ⟨"k", "r", 0⟩) ∧
      ∃ earlier config record later,
        StateSession.log [ordered, unordered] =
            earlier ++ (config, .put "b.gd" record) :: later ∧
          (∀ entry ∈ later, entry.2.key? ≠ some "b.gd") ∧
          Stored.sound ⟨"k", "r", 0⟩ = .sound record.stored ∧
          config.fingerprint = (afterSessions [ordered, unordered]).configHash := by
  intro ordered unordered
  have held :
      (afterSessions [ordered, unordered]).files.lookup "b.gd" =
        some (.sound ⟨"k", "r", 0⟩) := by
    decide +kernel
  refine ⟨by decide +kernel, by decide +kernel, held, ?_⟩
  exact (preparation_keeps_history_and_trusted_cache.2 [ordered, unordered]).2 _ _ held

end Database

end ScriptUplift
