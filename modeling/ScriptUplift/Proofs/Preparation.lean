import Mathlib.Tactic.Common
import ScriptUplift.Proofs.BackupCopy
import ScriptUplift.Proofs.Succession

namespace ScriptUplift

/-!
# Before the first file

A run that comes to its files has found an entry behind the path of each of them, and the
backup it may have made took nothing away.  `Ready` says what holds then; what the run
leaves is what processing the files leaves, with the summary in order and the run added
to the history.
-/

namespace Path

theorem intercalate_ne_empty
    {name : String}
    (notEmpty : name ≠ "")
    (rest : List String) :
    "/".intercalate (name :: rest) ≠ "" := by
  intro empty
  have written := congrArg String.toList empty
  rw [String.toList_intercalate] at written
  have noCharacter : name.toList = [] := by
    cases rest <;> simp_all
  exact notEmpty (String.toList_inj.mp (by simpa using noCharacter))

theorem relativePath_ne_empty
    {trail : List String}
    (named : Place.Named trail) :
    Walker.relativePath trail ≠ "" := by
  unfold Walker.relativePath
  cases trail with
  | nil =>
      decide
  | cons name rest =>
      rw [List.isEmpty_cons, if_neg (by simp)]
      exact intercalate_ne_empty (named name List.mem_cons_self).1 rest

theorem names_intercalate
    {trail : List String}
    (named : Place.Named trail)
    (notEmpty : trail ≠ []) :
    names ("/".intercalate trail) = trail := by
  unfold names
  rw [String.toList_intercalate]
  have pieces := Text.splitAt_joinWith (unmarked_of_named named) (by simpa using notEmpty)
  unfold Text.joinWith at pieces
  rw [show "/".toList = ['/'] by decide, pieces, map_ofList_toList]

/-- Different trails have different paths. -/
theorem relativePath_injective
    {first second : List String}
    (firstNamed : Place.Named first)
    (secondNamed : Place.Named second)
    (same : Walker.relativePath first = Walker.relativePath second) :
    first = second := by
  have written {trail : List String} (named : Place.Named trail) :
      names (Walker.relativePath trail) = if trail = [] then ["."] else trail := by
    unfold Walker.relativePath
    by_cases isEmpty : trail = []
    · rw [isEmpty]
      decide
    · rw [if_neg isEmpty, if_neg (by simpa using isEmpty), names_intercalate named isEmpty]
  have notDot {trail : List String} (named : Place.Named trail) : trail ≠ ["."] := by
    rintro rfl
    exact (named "." (by simp)).2.1 rfl
  have sameNames := congrArg names same
  rw [written firstNamed, written secondNamed] at sameNames
  split at sameNames
  · rename_i firstEmpty
    split at sameNames
    · rename_i secondEmpty
      rw [firstEmpty, secondEmpty]
    · exact absurd sameNames.symm (notDot secondNamed)
  · split at sameNames
    · exact absurd sameNames (notDot firstNamed)
    · exact sameNames

theorem isAbsolute_relativePath
    {trail : List String}
    (named : Place.Named trail) :
    isAbsolute (Walker.relativePath trail) = false := by
  unfold Walker.relativePath
  cases trail with
  | nil =>
      decide
  | cons name rest =>
      obtain ⟨⟨notEmpty, _, _, noSlash⟩, _⟩ := List.forall_mem_cons.mp named
      obtain ⟨first, others, isName⟩ := List.exists_cons_of_ne_nil
        (fun isNil => notEmpty (String.toList_inj.mp isNil))
      rw [isName] at noSlash
      have different : first ≠ '/' := by
        rintro rfl
        simp at noSlash
      unfold isAbsolute
      rw [List.isEmpty_cons, if_neg (by simp), String.toList_intercalate]
      cases rest <;> simp [isName, different]

/-- The path that a given file is shown under. -/
def shown
    (root place : Place) :
    String :=
  if (relative root place).startsWith ".." then place.path else relative root place

theorem dropCommon_eq
    (root place : Place) :
    ∃ common, root = common ++ (dropCommon root place).1 ∧
      place = common ++ (dropCommon root place).2 := by
  induction root generalizing place with
  | nil =>
      cases place <;> exact ⟨[], rfl, rfl⟩
  | cons name rest inductionHypothesis =>
      cases place with
      | nil =>
          exact ⟨[], rfl, rfl⟩
      | cons other others =>
          unfold dropCommon
          split
          · rename_i same
            obtain ⟨common, isRoot, isPlace⟩ := inductionHypothesis others
            exact ⟨name :: common, by rw [List.cons_append, ← isRoot],
              by rw [List.cons_append, ← isPlace, same]⟩
          · exact ⟨[], rfl, rfl⟩

/-- A file that is shown by its relative path is below the root. -/
theorem exists_of_not_startsWith
    {root place : Place}
    (below : ¬ (relative root place).startsWith ".." = true) :
    ∃ trail, place = root ++ trail ∧ relative root place = Walker.relativePath trail := by
  obtain ⟨common, isRoot, isPlace⟩ := dropCommon_eq root place
  unfold relative at below ⊢
  split at below
  · rename_i parts
    rw [parts] at isRoot isPlace
    exact ⟨[], by rw [List.append_nil, isPlace, isRoot], rfl⟩
  · rename_i up down notSame parts
    rw [parts] at isRoot isPlace
    cases up with
    | cons first others =>
        refine absurd (String.startsWith_string_iff.mpr ?_) below
        rw [String.toList_intercalate]
        cases others.map (fun _ => "..") ++ down <;> simp
    | nil =>
        refine ⟨down, by rw [isPlace, isRoot, List.append_nil], ?_⟩
        cases down with
        | nil =>
            exact absurd rfl (notSame · rfl)
        | cons name rest =>
            rfl

/-- Different places are shown under different paths. -/
theorem shown_injective
    {root first second : Place}
    (firstNamed : first.Named)
    (secondNamed : second.Named)
    (same : shown root first = shown root second) :
    first = second := by
  have trailNamed {place : Place} {trail : List String} (named : place.Named)
      (isPlace : place = root ++ trail) : Place.Named trail :=
    fun name member => named name (by rw [isPlace]; exact List.mem_append_right _ member)
  have differs {place other : Place} (named : other.Named)
      (below : ¬ (relative root other).startsWith ".." = true) :
      place.path ≠ relative root other := by
    intro samePath
    obtain ⟨trail, isOther, isRelative⟩ := exists_of_not_startsWith below
    have absolute := isAbsolute_path place
    rw [samePath, isRelative, isAbsolute_relativePath (trailNamed named isOther)] at absolute
    cases absolute
  unfold shown at same
  split at same
  · split at same
    · rw [← cleanNames_path firstNamed, same, cleanNames_path secondNamed]
    · rename_i below
      exact absurd same (differs secondNamed below)
  · rename_i firstBelow
    split at same
    · exact absurd same.symm (differs firstNamed firstBelow)
    · rename_i secondBelow
      obtain ⟨firstTrail, isFirst, firstRelative⟩ := exists_of_not_startsWith firstBelow
      obtain ⟨secondTrail, isSecond, secondRelative⟩ := exists_of_not_startsWith secondBelow
      rw [firstRelative, secondRelative] at same
      rw [isFirst, isSecond, relativePath_injective (trailNamed firstNamed isFirst)
        (trailNamed secondNamed isSecond) same]

theorem named_dropCommon
    (first : Place)
    {second : Place}
    (named : second.Named) :
    Place.Named (dropCommon first second).2 := by
  induction first generalizing second with
  | nil =>
      cases second <;> exact named
  | cons name rest inductionHypothesis =>
      cases second with
      | nil =>
          exact named
      | cons other others =>
          unfold dropCommon
          split
          · exact inductionHypothesis (List.forall_mem_cons.mp named).2
          · exact named

theorem relative_ne_empty
    {target : Place}
    (named : target.Named)
    (root : Place) :
    relative root target ≠ "" := by
  have downNamed := named_dropCommon root named
  unfold relative
  split
  · decide
  · rename_i up down notSame parts
    rw [parts] at downNamed
    cases up with
    | cons first others =>
        have dots : ".." ≠ "" := by
          decide
        exact intercalate_ne_empty dots _
    | nil =>
        cases down with
        | nil =>
            exact absurd rfl (notSame · rfl)
        | cons name rest =>
            exact intercalate_ne_empty (downNamed name List.mem_cons_self).1 rest

end Path

namespace Migration

/-- A file that a run can be about. -/
structure Candidate
    (disk : Disk)
    (file : FoundFile) :
    Prop where
  there : HasEntry disk file
  shown : file.relative ≠ ""

theorem candidate_givenFile
    {disk : Disk}
    {root : Place}
    {path : String}
    {file : FoundFile}
    (ordered : disk.Ordered)
    (given : givenFile disk root path = .ok file) :
    Candidate disk file ∧ file.relative = Path.shown root file.place := by
  have named := Path.named_place disk.workDir path
  unfold givenFile at given
  dsimp only at given
  split at given
  · cases given
  · rename_i content mode found
    obtain rfl := Except.ok.inj given
    refine ⟨⟨?_, ?_⟩, rfl⟩
    · obtain ⟨_, _, entry⟩ := Disk.Entry.exists_of_find ordered named found (by simp [Node.kind])
      exact .of_entry entry
    · dsimp only
      split
      · exact Path.path_ne_empty _
      · exact Path.relative_ne_empty named root
  · cases given

theorem candidate_givenFiles
    (root : Place)
    {state : State}
    (ordered : state.disk.Ordered)
    (paths : List String) :
    let given := givenFiles root state paths
    given.1.disk = state.disk ∧
      given.1.summary.results = state.summary.results ∧
      given.1.summary.changes = state.summary.changes ∧
      ∀ file ∈ given.2,
        Candidate state.disk file ∧ file.relative = Path.shown root file.place := by
  induction paths generalizing state with
  | nil =>
      exact ⟨rfl, rfl, rfl, List.forall_mem_nil _⟩
  | cons path rest inductionHypothesis =>
      rw [givenFiles_cons]
      split
      · rename_i file given
        obtain ⟨sameDisk, sameResults, sameChanges, candidates⟩ := inductionHypothesis ordered
        exact ⟨sameDisk, sameResults, sameChanges,
          List.forall_mem_cons.mpr ⟨candidate_givenFile ordered given, candidates⟩⟩
      · exact inductionHypothesis ordered

theorem disk_record
    (migrator : Migrator)
    (options : MigrationOptions)
    (root : Place)
    (state : State) :
    (record migrator options root state).disk = state.disk := by
  unfold record
  split
  · rfl
  · split <;> rfl

theorem summary_record
    (migrator : Migrator)
    (options : MigrationOptions)
    (root : Place)
    (state : State) :
    (record migrator options root state).summary = state.summary := by
  unfold record
  split
  · rfl
  · split <;> rfl

theorem collector_record
    (migrator : Migrator)
    (options : MigrationOptions)
    (root : Place)
    (state : State) :
    (record migrator options root state).collector = state.collector := by
  unfold record
  split
  · rfl
  · split <;> rfl

theorem get?_record
    (migrator : Migrator)
    (options : MigrationOptions)
    (root : Place)
    (state : State)
    (key : String) :
    (record migrator options root state).store.get? key = state.store.get? key := by
  unfold record
  split
  · rfl
  · split
    · rename_i added
      exact StateStore.get?_addRun added key
    · rfl

namespace Request

variable {request : Request} {store : StateStore} {ready : State} {files : List FoundFile}

/-- The place of the backup of a run. -/
def backupTarget
    (request : Request) :
    Place :=
  backupPlace request.migrator request.options request.root

/-- Whether a run makes a backup. -/
def backsUp
    (request : Request) :
    Bool :=
  request.options.backup && !request.options.dryRun

/-- What holds when a run comes to its files. -/
structure Ready
    (request : Request)
    (store : StateStore)
    (ready : State)
    (files : List FoundFile) :
    Prop where
  ordered : ready.disk.Ordered
  workDir : ready.disk.workDir = request.disk.workDir
  kept : ∀ place kind, request.disk.kindAt? place = some kind →
    ready.disk.kindAt? place = some kind
  unchanged : request.backsUp = false → ready.disk = request.disk
  backedUp : request.backsUp = true →
    Backup.Made request.migrator.walker request.root request.backupTarget request.disk ready.disk
  store : ready.store = store
  results : ready.summary.results = []
  changes : ready.summary.changes = []
  candidates : ∀ file ∈ files, Candidate request.disk file
  names : ∀ file ∈ files, ∀ other ∈ files,
    file.relative = other.relative → file.place = other.place
  /-- Without given files, all of them are below the root, and the way to them is open. -/
  walked : request.options.files = [] → ∀ file ∈ files, ∃ top node trail,
    request.disk.placeOf request.root.path = .ok top ∧
      request.disk.placeOf file.place.path = .ok (top ++ trail) ∧
      request.disk.root.get? top = some node ∧
      request.migrator.walker.Open (Walker.marked request.disk request.root) [] node trail

theorem named_root
    (request : Request) :
    request.root.Named :=
  Path.named_place _ _

theorem named_backupTarget
    (request : Request) :
    request.backupTarget.Named :=
  Path.named_cleanNames (Path.isAbsolute_join (Path.isAbsolute_path _) _)

/-- Every file that a walk finds can be worked on. -/
theorem candidate_walk
    {disk : Disk}
    {root : Place}
    (ordered : disk.Ordered)
    (named : root.Named)
    {walker : Walker}
    (walked : walker.walk disk root.path = .ok files) :
    ∀ file ∈ files, Candidate disk file ∧
      ∃ top node trail,
        file.place = root ++ trail ∧
          file.relative = Walker.relativePath trail ∧
          trail.Named ∧
          disk.placeOf root.path = .ok top ∧
          disk.placeOf file.place.path = .ok (top ++ trail) ∧
          disk.root.get? top = some node ∧
          walker.Open (Walker.marked disk root) [] node trail := by
  unfold Walker.walk at walked
  dsimp only at walked
  rw [Path.place_path named] at walked
  split at walked
  · cases walked
  · rename_i node found
    obtain ⟨top, leads, isTop⟩ := Disk.exists_place_of_nodeAt found
    obtain rfl := Except.ok.inj walked
    intro file member
    obtain ⟨⟨trail, content⟩, finds, rfl⟩ := List.mem_map.mp member
    obtain ⟨⟨kind, isLeaf, leaf⟩, isOpen⟩ :=
      Walker.filesAt_sound (ordered.tree.get? isTop).2 finds
    have there : disk.kindAt? (top ++ trail) = some kind := by
      unfold Disk.kindAt?
      rw [Node.kindAt?_append, isTop]
      exact isLeaf
    have trailNamed : Place.Named trail := fun name member =>
      ordered.named there name (List.mem_append_right _ member)
    have entry : disk.Entry (root ++ trail) (top ++ trail) kind := by
      refine ⟨List.forall_mem_append.mpr ⟨named, trailNamed⟩, ?_, there, leaf⟩
      by_cases isRoot : trail = []
      · subst isRoot
        rwa [List.append_nil, List.append_nil]
      · -- a walk goes into no link, so the root is a directory
        obtain ⟨first, rest, rfl⟩ := List.exists_cons_of_ne_nil isRoot
        have held : disk.kindAt? top = some .directory := Node.kindAt?_of_append there
        refine Disk.placeOf_append ordered (List.forall_mem_append.mpr ⟨named, trailNamed⟩) isRoot
          (Disk.targetOf_of_placeOf ordered named leads (by simp [held])) there
    exact ⟨⟨.of_entry entry, Path.relativePath_ne_empty trailNamed⟩, top, node, trail, rfl, rfl,
      trailNamed, leads, entry.leads, isTop, isOpen⟩

theorem candidates_spec
    {migrator : Migrator}
    {options : MigrationOptions}
    {root : Place}
    {state found : State}
    (ordered : state.disk.Ordered)
    (named : root.Named)
    (collected : candidates migrator options root state = .ok (found, files)) :
    found.disk = state.disk ∧
      found.summary.results = state.summary.results ∧
      found.summary.changes = state.summary.changes ∧
      (∀ file ∈ files, Candidate state.disk file) ∧
      (∀ file ∈ files, ∀ other ∈ files,
        file.relative = other.relative → file.place = other.place) ∧
      (options.files = [] → ∀ file ∈ files, ∃ top node trail,
        state.disk.placeOf root.path = .ok top ∧
          state.disk.placeOf file.place.path = .ok (top ++ trail) ∧
          state.disk.root.get? top = some node ∧
          migrator.walker.Open (Walker.marked state.disk root) [] node trail) := by
  unfold candidates at collected
  split at collected
  · split at collected
    · rename_i walked
      obtain ⟨rfl, rfl⟩ := Prod.mk.inj (Except.ok.inj collected)
      have found := candidate_walk ordered named walked
      refine ⟨rfl, rfl, rfl, fun file member => (found file member).1, ?_, ?_⟩
      · intro file member other otherMember same
        obtain ⟨_, _, _, trail, isPlace, isRelative, trailNamed, _⟩ := found file member
        obtain ⟨_, _, _, otherTrail, otherPlace, otherRelative, otherNamed, _⟩ :=
          found other otherMember
        rw [isRelative, otherRelative] at same
        rw [isPlace, otherPlace, Path.relativePath_injective trailNamed otherNamed same]
      · intro _ file member
        obtain ⟨_, top, node, trail, _, _, _, leads, fileLeads, isTop, isOpen⟩ := found file member
        exact ⟨top, node, trail, leads, fileLeads, isTop, isOpen⟩
    · cases collected
  · rename_i some
    obtain ⟨sameDisk, sameResults, sameChanges, isCandidate⟩ :=
      candidate_givenFiles root ordered options.files
    rw [Except.ok.inj collected] at sameDisk sameResults sameChanges isCandidate
    have placeNamed {file : FoundFile} (member : file ∈ files) : file.place.Named := by
      exact (isCandidate file member).1.there.named
    refine ⟨sameDisk, sameResults, sameChanges, fun file member => (isCandidate file member).1,
      ?_, ?_⟩
    · intro file member other otherMember same
      rw [(isCandidate file member).2, (isCandidate other otherMember).2] at same
      exact Path.shown_injective (placeNamed member) (placeNamed otherMember) same
    · intro noFile
      rw [noFile] at some
      exact absurd rfl some

theorem backUp_spec
    {migrator : Migrator}
    {options : MigrationOptions}
    {root : Place}
    {state : State}
    (ordered : state.disk.Ordered)
    (named : root.Named)
    (targetNamed : (backupPlace migrator options root).Named)
    (backed : backUp migrator options root state = (ready, none)) :
    ready.summary = state.summary ∧
      ((options.backup && !options.dryRun) = false → ready.disk = state.disk) ∧
      ((options.backup && !options.dryRun) = true →
        Backup.Made migrator.walker root (backupPlace migrator options root) state.disk
          ready.disk) := by
  unfold backUp at backed
  split at backed
  · rename_i asked
    dsimp only at backed
    split at backed
    · rename_i made
      obtain ⟨rfl, _⟩ := Prod.mk.inj backed
      refine ⟨rfl, fun notAsked => absurd (asked.symm.trans notAsked) (by simp), fun _ => ?_⟩
      exact Backup.made_of_backup ordered named targetNamed made
    · cases backed
  · rename_i notAsked
    obtain ⟨rfl, _⟩ := Prod.mk.inj backed
    exact ⟨rfl, fun _ => rfl, fun asked => absurd asked notAsked⟩

/-- A run that comes to its files is ready for them. -/
theorem ready_of_prepared
    (ordered : request.disk.Ordered)
    (prepared : request.prepared? store = some (ready, files)) :
    request.Ready store ready files := by
  have sameStore := store_of_prepared prepared
  obtain ⟨_, course, _⟩ := request.exists_course store
  rw [prepared] at course
  cases course with
  | processed isCollected backed =>
      obtain ⟨foundDisk, foundResults, foundChanges, isCandidate, differ, isWalked⟩ :=
        candidates_spec (by exact ordered) request.named_root isCollected
      obtain ⟨readySummary, sameDisk, backedUp⟩ :=
        backUp_spec (by rw [collected, State.tell, foundDisk]; exact ordered) request.named_root
          request.named_backupTarget backed
      rw [collected, State.tell, foundDisk] at sameDisk backedUp
      have held : ready.disk.Ordered ∧ ready.disk.workDir = request.disk.workDir ∧
          ∀ place kind, request.disk.kindAt? place = some kind →
            ready.disk.kindAt? place = some kind := by
        cases asked : request.backsUp with
        | false =>
            rw [sameDisk asked]
            exact ⟨ordered, rfl, fun _ _ found => found⟩
        | true =>
            exact (backedUp asked).keeps ordered
      exact
        { ordered := held.1
          workDir := held.2.1
          kept := held.2.2
          unchanged := sameDisk
          backedUp := backedUp
          store := sameStore
          results := by rw [readySummary]; exact foundResults
          changes := by rw [readySummary]; exact foundChanges
          candidates := isCandidate
          names := differ
          walked := isWalked }

/-- The paths of the files lead where they led when these were found. -/
theorem Ready.entry
    (ordered : request.disk.Ordered)
    (isReady : request.Ready store ready files) :
    ∀ file ∈ files,
      HasEntry ready.disk file ∧ ready.disk.seat file.place = request.disk.seat file.place := by
  intro file member
  obtain ⟨kind, entry⟩ := (isReady.candidates file member).there
  have still := entry.of_kept ordered isReady.ordered isReady.kept
  exact ⟨.of_entry still, still.seat_eq⟩

theorem Ready.placeOf_eq
    (ordered : request.disk.Ordered)
    (isReady : request.Ready store ready files)
    {file : FoundFile}
    (member : file ∈ files) :
    ready.disk.placeOf file.place.path = request.disk.placeOf file.place.path := by
  obtain ⟨⟨_, still⟩, sameSeat⟩ := isReady.entry ordered file member
  obtain ⟨_, entry⟩ := (isReady.candidates file member).there
  rw [still.leads, sameSeat, entry.leads]

/-- Candidates with different paths that keep out of each other's way are apart. -/
theorem Ready.apart
    (ordered : request.disk.Ordered)
    (isReady : request.Ready store ready files)
    (ways : WaysApart ready.disk files)
    (distinct : (files.map (·.place.path)).Nodup) :
    Apart ready.disk files where
  there := fun file member => (isReady.entry ordered file member).1
  ways := ways
  places := by
    refine List.Nodup.of_map Place.path ?_
    rwa [List.map_map]
  names := by
    refine List.pairwise_map.mpr ((List.pairwise_map.mp distinct).imp_of_mem ?_)
    intro file other member otherMember different same
    exact different (congrArg Place.path (isReady.names file member other otherMember same))

theorem writer_byDefault
    (disk : Disk) :
    (byDefault disk).migrator.writer = .failing fun _ => none := by
  rw [FileWriter.failing_none, byDefault]

end Request

end Migration

end ScriptUplift
