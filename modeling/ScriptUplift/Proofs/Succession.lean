import Mathlib.Data.List.Basic
import Mathlib.Tactic.Common
import ScriptUplift.Proofs.FileForecast

namespace ScriptUplift

/-!
# Files one after another

A run takes its files in order.  What becomes of each of them can be told from the
state before the first one, as long as their paths lead to different entries and their
names differ: `Settles` says what is left of the disk, the store, the summary and the
records.
-/

namespace Migration

/-- The path of a file leads to an entry. -/
def HasEntry
    (disk : Disk)
    (file : FoundFile) :
    Prop :=
  ∃ kind, disk.Entry file.place (disk.seat file.place) kind

theorem HasEntry.of_entry
    {disk : Disk}
    {file : FoundFile}
    {place : Place}
    {kind : Node.Kind}
    (entry : disk.Entry file.place place kind) :
    HasEntry disk file :=
  ⟨kind, entry.seat_eq.symm ▸ entry⟩

theorem HasEntry.named
    {disk : Disk}
    {file : FoundFile}
    (there : HasEntry disk file) :
    file.place.Named := by
  obtain ⟨_, entry⟩ := there
  exact entry.named

/-- The way of a file passes its entry. -/
theorem HasEntry.mem_way
    {disk : Disk}
    {file : FoundFile}
    (ordered : disk.Ordered)
    (there : HasEntry disk file) :
    disk.seat file.place ∈ disk.way file.place := by
  obtain ⟨_, entry⟩ := there
  exact List.mem_append_left _ (entry.mem_entryWay ordered)

/--
Only the entries of files can change, something stands where something stood, and no path
leads to an entry that it did not lead to.
-/
structure TouchesOnly
    (files : List FoundFile)
    (before after : Disk) :
    Prop where
  ordered : after.Ordered
  elsewhere : ∀ place, (∀ file ∈ files, before.placeOf file.place.path ≠ .ok place) →
    after.kindAt? place = before.kindAt? place
  leads : ∀ names place, Place.Named names → after.placeOf names.path = .ok place →
    before.placeOf names.path = .ok place
  stands : ∀ place, (after.kindAt? place).isSome = (before.kindAt? place).isSome

namespace TouchesOnly

variable {before middle after : Disk} {file : FoundFile} {files : List FoundFile}

theorem refl
    (ordered : before.Ordered)
    (files : List FoundFile) :
    TouchesOnly files before before :=
  ⟨ordered, fun _ _ => rfl, fun _ _ _ => id, fun _ => rfl⟩

theorem cons
    (first : TouchesOnly [file] before middle)
    (named : ∀ other ∈ files, other.place.Named)
    (rest : TouchesOnly files middle after) :
    TouchesOnly (file :: files) before after where
  ordered := rest.ordered
  elsewhere := by
    intro place outside
    obtain ⟨notFirst, notRest⟩ := List.forall_mem_cons.mp outside
    rw [rest.elsewhere, first.elsewhere place (List.forall_mem_singleton.mpr notFirst)]
    exact fun other member leads =>
      notRest other member (first.leads _ place (named other member) leads)
  leads names place isNamed leads := first.leads names place isNamed (rest.leads _ _ isNamed leads)
  stands place := (rest.stands place).trans (first.stands place)

end TouchesOnly

@[simp] theorem disk_absorb
    (state : State)
    (relative : String)
    (processed : Processed) :
    (state.absorb relative processed).disk = processed.disk := by
  unfold State.absorb
  dsimp only
  split <;> rfl

theorem summary_absorb
    {forecast : Forecast}
    {processed : Processed}
    (same : processed.outcome = forecast.outcome)
    (state : State)
    (relative : String) :
    (state.absorb relative processed).summary = forecast.count relative state.summary := by
  unfold State.absorb Forecast.count
  rw [same]
  cases forecast.outcome <;> rfl

theorem collector_absorb
    {forecast : Forecast}
    {processed : Processed}
    (same : processed.outcome = forecast.outcome)
    (state : State)
    (relative : String) :
    (state.absorb relative processed).collector = forecast.gather state.collector := by
  unfold State.absorb Forecast.gather
  rw [same]
  cases forecast.outcome <;> rfl

theorem Forecast.get?_remember_of_ne
    {relative other : String}
    (different : other ≠ relative)
    (forecast : Forecast)
    (ruleHash : String)
    (now : Int)
    (store : StateStore) :
    (forecast.remember relative ruleHash now store).get? other = store.get? other := by
  unfold Forecast.remember
  split
  · rfl
  · rename_i hash _
    cases stored : store.put relative ⟨hash, ruleHash, now⟩ with
    | error fault =>
        rfl
    | ok after =>
        obtain ⟨_, _, _, answers⟩ := StateStore.get?_put stored
        change after.get? other = _
        rw [answers, if_neg different]

namespace Setup

variable (setup : Setup)

/-- What becomes of a file, seen from a state. -/
def forecastAt
    (state : State)
    (file : FoundFile) :
    Forecast :=
  setup.forecast file state.disk state.store

/-- What the entry of a file is in the end, seen from a state. -/
def kindAfter
    (state : State)
    (file : FoundFile) :
    Option Node.Kind :=
  (state.disk.kindAt? (state.disk.seat file.place)).map
    ((setup.forecastAt state file).kind (state.disk.modeFor file.place.path))

/-- Remember a file as forecast in a state. -/
def rememberIn
    (state : State)
    (store : StateStore)
    (file : FoundFile) :
    StateStore :=
  (setup.forecastAt state file).remember file.relative setup.migrator.ruleHash setup.migrator.now
    store

/-- Count a file as forecast in a state. -/
def countIn
    (state : State)
    (summary : Summary)
    (file : FoundFile) :
    Summary :=
  (setup.forecastAt state file).count file.relative summary

/-- Gather the records of a file as forecast in a state. -/
def gatherIn
    (state : State)
    (collector : Collector)
    (file : FoundFile) :
    Collector :=
  (setup.forecastAt state file).gather collector

/-- The state after a file was processed. -/
def visit
    (total : Nat)
    (state : State)
    (file : FoundFile) :
    State :=
  { state.absorb file.relative
      (process setup.migrator setup.options file state.disk state.store) with
    progress := state.progress ++ [⟨state.progress.length + 1, total, file.relative⟩] }

@[simp] theorem disk_visit
    (total : Nat)
    (state : State)
    (file : FoundFile) :
    (setup.visit total state file).disk =
      (process setup.migrator setup.options file state.disk state.store).disk := by
  unfold visit
  exact disk_absorb ..

@[simp] theorem store_visit
    (total : Nat)
    (state : State)
    (file : FoundFile) :
    (setup.visit total state file).store =
      (process setup.migrator setup.options file state.disk state.store).store := by
  unfold visit
  exact store_absorb ..

theorem processAll_cons
    (total : Nat)
    (state : State)
    (file : FoundFile)
    (rest : List FoundFile) :
    processAll setup.migrator setup.options total state (file :: rest) =
      if setup.options.cancelAfter.any (· ≤ state.progress.length) then state
      else processAll setup.migrator setup.options total (setup.visit total state file) rest := by
  rw [processAll]
  rfl

variable {setup} {file : FoundFile} {state : State}

theorem processAll_cons_of_not_cancelled
    (notCancelled : setup.options.cancelAfter = none)
    (total : Nat)
    (state : State)
    (file : FoundFile)
    (rest : List FoundFile) :
    processAll setup.migrator setup.options total state (file :: rest) =
      processAll setup.migrator setup.options total (setup.visit total state file) rest := by
  rw [processAll_cons, notCancelled, if_neg (by simp)]

theorem kindAfter_of_leaf
    {kind : Node.Kind}
    (found : state.disk.kindAt? (state.disk.seat file.place) = some kind) :
    setup.kindAfter state file =
      some ((setup.forecastAt state file).kind (state.disk.modeFor file.place.path) kind) := by
  unfold kindAfter
  rw [found]
  rfl

theorem kindAfter_of_unwritten
    (unwritten : (setup.forecastAt state file).written? = none) :
    setup.kindAfter state file = state.disk.kindAt? (state.disk.seat file.place) := by
  unfold kindAfter Forecast.kind
  rw [unwritten]
  exact Option.map_id'

/-- A file is remembered, counted and gathered as forecast. -/
theorem visit_leaves
    (setup : Setup)
    (ordered : state.disk.Ordered)
    (named : file.place.Named)
    (total : Nat) :
    (setup.visit total state file).store = setup.rememberIn state state.store file ∧
      (setup.visit total state file).summary = setup.countIn state state.summary file ∧
      (setup.visit total state file).collector = setup.gatherIn state state.collector file := by
  have fulfils := setup.process_fulfils state.store ordered named
  refine ⟨(setup.store_visit ..).trans fulfils.store, ?_, ?_⟩
  · unfold visit
    exact summary_absorb fulfils.outcome ..
  · unfold visit
    exact collector_absorb fulfils.outcome ..

/-- A file that has an entry is processed as forecast. -/
theorem visit_spec
    (setup : Setup)
    (ordered : state.disk.Ordered)
    (there : HasEntry state.disk file)
    (total : Nat) :
    state.disk.Changed (state.disk.seat file.place) (setup.kindAfter state file)
        (setup.visit total state file).disk ∧
      (setup.visit total state file).store = setup.rememberIn state state.store file ∧
      (setup.visit total state file).summary = setup.countIn state state.summary file ∧
      (setup.visit total state file).collector = setup.gatherIn state state.collector file := by
  refine ⟨?_, setup.visit_leaves ordered there.named total⟩
  have fulfils := setup.process_fulfils state.store ordered there.named
  obtain ⟨kind, entry⟩ := there
  have changed := fulfils.disk _ _ entry
  unfold kindAfter forecastAt
  rw [entry.found, disk_visit]
  exact changed

/-- Processing a file leaves the disk, or writes what was forecast where its path leads. -/
theorem visit_writes
    (setup : Setup)
    (ordered : state.disk.Ordered)
    (named : file.place.Named)
    (total : Nat) :
    (setup.visit total state file).disk = state.disk ∨
      ∃ place kind text mode,
        (setup.forecastAt state file).written? = some text ∧
          state.disk.Entry file.place place kind ∧
          state.disk.Changed place (some (.file (.text text) mode))
            (setup.visit total state file).disk := by
  by_cases there : HasEntry state.disk file
  · obtain ⟨changed, _⟩ := setup.visit_spec ordered there total
    obtain ⟨kind, entry⟩ := there
    cases written : (setup.forecastAt state file).written? with
    | none =>
        rw [kindAfter_of_unwritten written] at changed
        exact .inl (changed.eq_of_same (.idle ordered rfl))
    | some text =>
        rw [kindAfter_of_leaf entry.found, Forecast.kind, written] at changed
        exact .inr ⟨_, _, _, _, rfl, entry, changed⟩
  · -- what has no entry cannot be read
    left
    rw [disk_visit, process]
    cases read : state.disk.readText file.place.path with
    | error fault =>
        rfl
    | ok content =>
        obtain ⟨_, _, entry⟩ := Disk.Entry.exists_of_readText ordered named read
        exact absurd (.of_entry entry) there

theorem visit_touches
    (setup : Setup)
    (ordered : state.disk.Ordered)
    (named : file.place.Named)
    (total : Nat) :
    TouchesOnly [file] state.disk (setup.visit total state file).disk := by
  rcases setup.visit_writes ordered named total with same | ⟨own, _, _, _, _, entry, changed⟩
  · rw [same]
    exact .refl ordered _
  · refine ⟨changed.ordered, fun place outside => changed.other ?_,
      fun _ _ othersNamed => changed.placeOf_of_file ordered othersNamed, fun place => ?_⟩
    · rintro rfl
      exact outside file (by simp) entry.leads
    · by_cases isOwn : place = own
      · rw [isOwn, changed.own, entry.found]
        rfl
      · rw [changed.other isOwn]

/-- A run touches nothing but the entries of its files, also when it is cancelled. -/
theorem processAll_touches
    (setup : Setup)
    (total : Nat)
    {files : List FoundFile}
    (ordered : state.disk.Ordered)
    (named : ∀ file ∈ files, file.place.Named) :
    TouchesOnly files state.disk
      (processAll setup.migrator setup.options total state files).disk := by
  induction files generalizing state with
  | nil =>
      exact .refl ordered _
  | cons file rest inductionHypothesis =>
      rw [processAll_cons]
      split
      · exact .refl ordered _
      · obtain ⟨fileNamed, restNamed⟩ := List.forall_mem_cons.mp named
        have first := setup.visit_touches ordered fileNamed total
        exact first.cons restNamed (inductionHypothesis first.ordered restNamed)

variable (setup)

/-- A state is what another one comes to when files are processed as forecast. -/
structure Settles
    (before : State)
    (files : List FoundFile)
    (after : State) :
    Prop where
  ordered : after.disk.Ordered
  workDir : after.disk.workDir = before.disk.workDir
  own : ∀ file ∈ files,
    after.disk.kindAt? (before.disk.seat file.place) = setup.kindAfter before file
  elsewhere : ∀ place, (∀ file ∈ files, place ≠ before.disk.seat file.place) →
    after.disk.kindAt? place = before.disk.kindAt? place
  store : after.store = files.foldl (setup.rememberIn before) before.store
  summary : after.summary = files.foldl (setup.countIn before) before.summary
  collector : after.collector = files.foldl (setup.gatherIn before) before.collector

end Setup

/--
The path of no file passes the entry of another one, nor a free place that the temporary
file of another one can take.
-/
def WaysApart
    (disk : Disk)
    (files : List FoundFile) :
    Prop :=
  ∀ file ∈ files, ∀ passed ∈ disk.way file.place, ∀ other ∈ files, other.place ≠ file.place →
    passed ≠ disk.seat other.place ∧
      ∀ number, passed = (disk.seat other.place).temporary number → disk.kindAt? passed ≠ none

/-- Paths that lead to something pass no free place, so only entries can be in their way. -/
theorem waysApart_of_found
    {disk : Disk}
    {files : List FoundFile}
    (passes : ∀ file ∈ files, ∀ passed ∈ disk.way file.place,
      (disk.kindAt? passed).isSome ∧
        ∀ other ∈ files, other.place ≠ file.place → passed ≠ disk.seat other.place) :
    WaysApart disk files := by
  intro file member passed isPassed other otherMember different
  obtain ⟨found, aside⟩ := passes file member passed isPassed
  exact ⟨aside other otherMember different, fun _ _ free => by simp [free] at found⟩

/--
Files with different paths and names, all of which lead to an entry and keep out of each
other's way.
-/
structure Apart
    (disk : Disk)
    (files : List FoundFile) :
    Prop where
  there : ∀ file ∈ files, HasEntry disk file
  ways : WaysApart disk files
  places : (files.map (·.place)).Nodup
  names : (files.map (·.relative)).Nodup

theorem WaysApart.of_subset
    {disk : Disk}
    {files others : List FoundFile}
    (ways : WaysApart disk files)
    (within : others ⊆ files) :
    WaysApart disk others :=
  fun file member passed isPassed other otherMember =>
    ways file (within member) passed isPassed other (within otherMember)

theorem Apart.cons
    {disk : Disk}
    {file : FoundFile}
    {rest : List FoundFile}
    (apart : Apart disk (file :: rest)) :
    HasEntry disk file ∧
      Apart disk rest ∧
      ∀ other ∈ rest, other.place ≠ file.place ∧ other.relative ≠ file.relative := by
  obtain ⟨there, ways, places, names⟩ := apart
  obtain ⟨fileThere, restThere⟩ := List.forall_mem_cons.mp there
  obtain ⟨newPlace, restPlaces⟩ := List.nodup_cons.mp places
  obtain ⟨newName, restNames⟩ := List.nodup_cons.mp names
  have restWays := ways.of_subset (List.subset_cons_self file rest)
  refine ⟨fileThere, ⟨restThere, restWays, restPlaces, restNames⟩, ?_⟩
  intro other member
  constructor
  · intro same
    exact newPlace (List.mem_map.mpr ⟨other, member, same⟩)
  · intro same
    exact newName (List.mem_map.mpr ⟨other, member, same⟩)

theorem Apart.sublist
    {disk : Disk}
    {files others : List FoundFile}
    (apart : Apart disk files)
    (within : others.Sublist files) :
    Apart disk others where
  there := fun file member => apart.there file (within.mem member)
  ways := apart.ways.of_subset within.subset
  places := apart.places.sublist (within.map _)
  names := apart.names.sublist (within.map _)

/-- The path of a file does not pass the entry of another one. -/
theorem Apart.aside
    {disk : Disk}
    {files : List FoundFile}
    (apart : Apart disk files)
    {file other : FoundFile}
    (member : file ∈ files)
    (otherMember : other ∈ files)
    (different : other.place ≠ file.place) :
    ∀ passed ∈ disk.way file.place, passed ≠ disk.seat other.place :=
  fun passed isPassed => (apart.ways file member passed isPassed other otherMember different).1

/-- Files that are apart have different entries. -/
theorem Apart.seat_ne
    {disk : Disk}
    {files : List FoundFile}
    (ordered : disk.Ordered)
    (apart : Apart disk files)
    {file other : FoundFile}
    (member : file ∈ files)
    (otherMember : other ∈ files)
    (different : other.place ≠ file.place) :
    disk.seat other.place ≠ disk.seat file.place :=
  (apart.aside member otherMember different _ ((apart.there file member).mem_way ordered)).symm

namespace Setup

section

variable
  {setup : Setup}
  {state : State}
  {file other : FoundFile}
  (ordered : state.disk.Ordered)
  (there : HasEntry state.disk file)
  (otherThere : HasEntry state.disk other)
  (aside : ∀ passed ∈ state.disk.way other.place, passed ≠ state.disk.seat file.place)
  (total : Nat)

include ordered there otherThere aside

/-- The path of a file leads to what it led to before another one was processed. -/
theorem kindFound_visit :
    (setup.visit total state file).disk.kindFound other.place.path =
        state.disk.kindFound other.place.path ∧
      (setup.visit total state file).disk.way other.place = state.disk.way other.place := by
  obtain ⟨changed, _⟩ := setup.visit_spec ordered there total
  exact Disk.kindFound_congr ordered changed.ordered otherThere.named
    fun passed member => changed.other (aside passed member)

/-- The path of a file leads to the entry it led to before another one was processed. -/
theorem entry_visit :
    HasEntry (setup.visit total state file).disk other ∧
      (setup.visit total state file).disk.seat other.place = state.disk.seat other.place := by
  obtain ⟨changed, _⟩ := setup.visit_spec ordered there total
  obtain ⟨kind, entry⟩ := otherThere
  have still := entry.congr ordered changed.ordered fun passed member =>
    changed.other (aside passed (List.mem_append_left _ member))
  exact ⟨.of_entry still, still.seat_eq⟩

/-- A file finds what it would have found before another one was processed. -/
theorem forecastAt_visit
    (otherName : other.relative ≠ file.relative) :
    setup.forecastAt (setup.visit total state file) other = setup.forecastAt state other := by
  obtain ⟨_, stored, _⟩ := setup.visit_spec ordered there total
  obtain ⟨sameFound, _⟩ := setup.kindFound_visit ordered there otherThere aside total
  refine setup.forecast_congr (Disk.readText_congr sameFound) ?_
  rw [stored]
  exact Forecast.get?_remember_of_ne otherName ..

/-- What becomes of the entry of a file is what would have become of it before. -/
theorem kindAfter_visit
    (otherName : other.relative ≠ file.relative) :
    setup.kindAfter (setup.visit total state file) other = setup.kindAfter state other := by
  obtain ⟨changed, _⟩ := setup.visit_spec ordered there total
  obtain ⟨sameFound, _⟩ := setup.kindFound_visit ordered there otherThere aside total
  obtain ⟨_, sameSeat⟩ := setup.entry_visit ordered there otherThere aside total
  unfold kindAfter
  rw [sameSeat, changed.other (aside _ (otherThere.mem_way ordered)), Disk.modeFor_congr sameFound,
    forecastAt_visit ordered there otherThere aside total otherName]

end

/-- Files that are apart are so after the first of them was processed. -/
theorem apart_visit
    {setup : Setup}
    {state : State}
    {file : FoundFile}
    {rest : List FoundFile}
    (ordered : state.disk.Ordered)
    (apart : Apart state.disk (file :: rest))
    (total : Nat) :
    Apart (setup.visit total state file).disk rest := by
  obtain ⟨there, restApart, others⟩ := apart.cons
  obtain ⟨changed, _⟩ := setup.visit_spec ordered there total
  have aside {other : FoundFile} (member : other ∈ rest) :
      ∀ passed ∈ state.disk.way other.place, passed ≠ state.disk.seat file.place :=
    apart.aside (List.mem_cons_of_mem file member) List.mem_cons_self (others other member).1.symm
  have still {other : FoundFile} (member : other ∈ rest) :=
    setup.entry_visit ordered there (restApart.there other member) (aside member) total
  refine ⟨fun other member => (still member).1, ?_, restApart.places, restApart.names⟩
  intro other member passed isPassed third thirdMember
  rw [(kindFound_visit ordered there (restApart.there other member) (aside member) total).2]
    at isPassed
  rw [changed.other (aside member passed isPassed), (still thirdMember).2]
  exact restApart.ways other member passed isPassed third thirdMember

end Setup

/-- Files that are apart are processed as forecast before the first of them. -/
theorem Setup.processAll_settles
    {setup : Setup}
    (notCancelled : setup.options.cancelAfter = none)
    (total : Nat)
    {state : State}
    {files : List FoundFile}
    (ordered : state.disk.Ordered)
    (apart : Apart state.disk files) :
    setup.Settles state files (processAll setup.migrator setup.options total state files) := by
  induction files generalizing state with
  | nil =>
      exact
        { ordered := ordered
          workDir := rfl
          own := List.forall_mem_nil _
          elsewhere := fun _ _ => rfl
          store := rfl
          summary := rfl
          collector := rfl }
  | cons file rest inductionHypothesis =>
      obtain ⟨there, restApart, others⟩ := apart.cons
      obtain ⟨changed, stored, counted, gathered⟩ :=
        setup.visit_spec ordered there total
      have aside {other : FoundFile} (member : other ∈ rest) :
          ∀ passed ∈ state.disk.way other.place, passed ≠ state.disk.seat file.place :=
        apart.aside (List.mem_cons_of_mem file member) List.mem_cons_self
          (others other member).1.symm
      have sameSeat {other : FoundFile} (member : other ∈ rest) :
          (setup.visit total state file).disk.seat other.place = state.disk.seat other.place :=
        (setup.entry_visit ordered there (restApart.there other member) (aside member) total).2
      -- the other files find what they would have found before this one
      have sameForecast {other : FoundFile} (member : other ∈ rest) :
          setup.forecastAt (setup.visit total state file) other = setup.forecastAt state other :=
        forecastAt_visit ordered there (restApart.there other member) (aside member) total
          (others other member).2
      rw [processAll_cons_of_not_cancelled notCancelled]
      have settled := inductionHypothesis changed.ordered (apart_visit ordered apart total)
      exact
        { ordered := settled.ordered
          workDir := settled.workDir.trans changed.workDir
          own := by
            refine List.forall_mem_cons.mpr ⟨?_, ?_⟩
            · rw [settled.elsewhere, changed.own]
              intro other member
              rw [sameSeat member]
              exact (aside member _ ((restApart.there other member).mem_way ordered)).symm
            · intro other member
              rw [← sameSeat member, settled.own other member]
              exact kindAfter_visit ordered there (restApart.there other member) (aside member)
                total (others other member).2
          elsewhere := by
            intro place outside
            obtain ⟨notOwn, notRest⟩ := List.forall_mem_cons.mp outside
            rw [settled.elsewhere place, changed.other notOwn]
            intro other member
            rw [sameSeat member]
            exact notRest other member
          store := by
            rw [settled.store, stored, List.foldl_cons]
            refine List.foldl_ext _ _ _ fun store other member => ?_
            unfold rememberIn
            rw [sameForecast member]
          summary := by
            rw [settled.summary, counted, List.foldl_cons]
            refine List.foldl_ext _ _ _ fun summary other member => ?_
            unfold countIn
            rw [sameForecast member]
          collector := by
            rw [settled.collector, gathered, List.foldl_cons]
            refine List.foldl_ext _ _ _ fun collector other member => ?_
            unfold gatherIn
            rw [sameForecast member] }

namespace Setup

/-- The files a run comes to before it is cancelled. -/
def visited
    (setup : Setup)
    (state : State)
    (files : List FoundFile) :
    List FoundFile :=
  match setup.options.cancelAfter with
  | none => files
  | some limit => files.take (limit - state.progress.length)

variable {setup : Setup} {before after : State} {files : List FoundFile}

/-- What every file of a list leaves in the store, all of them leave there. -/
theorem get?_foldl
    {remember : StateStore → FoundFile → StateStore}
    {key : String}
    {files : List FoundFile}
    (aside : ∀ file ∈ files, ∀ store, (remember store file).get? key = store.get? key)
    (store : StateStore) :
    (files.foldl remember store).get? key = store.get? key := by
  induction files generalizing store with
  | nil =>
      rfl
  | cons file rest inductionHypothesis =>
      obtain ⟨own, others⟩ := List.forall_mem_cons.mp aside
      rw [List.foldl_cons, inductionHypothesis others, own]

theorem get?_foldl_rememberIn
    {key : String}
    (different : ∀ file ∈ files, key ≠ file.relative)
    (store : StateStore) :
    (files.foldl (setup.rememberIn before) store).get? key = store.get? key :=
  get?_foldl
    (fun file member _ => Forecast.get?_remember_of_ne (different file member) ..) store

namespace Settles

theorem get?_of_ne
    (settles : setup.Settles before files after)
    {key : String}
    (different : ∀ file ∈ files, key ≠ file.relative) :
    after.store.get? key = before.store.get? key := by
  rw [settles.store]
  exact get?_foldl_rememberIn different before.store

/-- A file that is not among those that were processed finds what it would have found before. -/
theorem forecastAt_eq
    (settles : setup.Settles before files after)
    (ordered : before.disk.Ordered)
    {file : FoundFile}
    (there : HasEntry before.disk file)
    (aside : ∀ other ∈ files, ∀ passed ∈ before.disk.way file.place,
      passed ≠ before.disk.seat other.place)
    (otherName : ∀ other ∈ files, file.relative ≠ other.relative) :
    setup.forecastAt after file = setup.forecastAt before file := by
  obtain ⟨sameFound, _⟩ := Disk.kindFound_congr ordered settles.ordered there.named
    fun passed isPassed => settles.elsewhere passed fun other member =>
      aside other member passed isPassed
  exact setup.forecast_congr (Disk.readText_congr sameFound) (settles.get?_of_ne otherName)

end Settles

end Setup

end Migration

end ScriptUplift
