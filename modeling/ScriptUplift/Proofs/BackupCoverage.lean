import Mathlib.Tactic.Common
import ScriptUplift.Proofs.Preparation

namespace ScriptUplift

/-!
# What a backup covers

A run with a backup keeps the old content of every regular file it changes, as far as a
walk would come to the file: directories that a walk passes over are left out of the
backup, also when a file in them is given by name, and a link that a run replaces is not
copied.  Nothing in the backup comes from the backup.
-/

namespace Migration

namespace Request

variable {request : Request} {store : StateStore} {ready : State} {files : List FoundFile}

/-- A walk from the root would come to a place. -/
def WithinReach
    (request : Request)
    (place : Place) :
    Prop :=
  ∃ top node trail,
    request.disk.placeOf request.root.path = .ok top ∧
      place = top ++ trail ∧
      request.disk.root.get? top = some node ∧
      request.migrator.walker.Open (Walker.marked request.disk request.root) [] node trail

/-- A backup marks a directory on the way from the root to a place. -/
def MarkedByBackup
    (request : Request)
    (backedUp : Disk)
    (place : Place) :
    Prop :=
  ∃ top trail,
    request.disk.placeOf request.root.path = .ok top ∧
      place = top ++ trail ∧
      Backup.Marks request.disk backedUp request.root trail

/-- Where the directory of a backup lies in the tree that was copied, its path says so. -/
def BackupInSight
    (request : Request)
    (backedUp : Disk) :
    Prop :=
  ∀ top base,
    request.disk.placeOf request.root.path = .ok top →
      backedUp.targetOf request.backupTarget.path = .ok base →
      Backup.InSight request.root request.backupTarget top base

/-- What a run changes is what one of its paths leads to. -/
theorem exists_of_changed
    (setup : Setup)
    (ordered : request.disk.Ordered)
    (isReady : request.Ready store ready files)
    {total : Nat}
    {place : Place}
    (changed :
      (processAll setup.migrator setup.options total ready files).disk.kindAt? place ≠
        ready.disk.kindAt? place) :
    ∃ file ∈ files, request.disk.placeOf file.place.path = .ok place := by
  by_contra outside
  have touches := setup.processAll_touches total isReady.ordered fun file member =>
    (isReady.candidates file member).there.named
  refine changed (touches.elsewhere place fun file member leads => outside ⟨file, member, ?_⟩)
  rwa [isReady.placeOf_eq ordered member] at leads

/-- Without given files, a walk comes to what a run changes. -/
theorem withinReach_of_changed
    (setup : Setup)
    (ordered : request.disk.Ordered)
    (isReady : request.Ready store ready files)
    (noFile : request.options.files = [])
    {total : Nat}
    {place : Place}
    (changed :
      (processAll setup.migrator setup.options total ready files).disk.kindAt? place ≠
        ready.disk.kindAt? place) :
    request.WithinReach place := by
  obtain ⟨file, member, leads⟩ := exists_of_changed setup ordered isReady changed
  obtain ⟨top, node, trail, topLeads, isPlace, isRoot, isOpen⟩ :=
    isReady.walked noFile file member
  exact ⟨top, node, trail, topLeads, Except.ok.inj (leads.symm.trans isPlace), isRoot, isOpen⟩

/-- Nothing changes behind a place where nothing stood when the files were found. -/
theorem kindAt?_of_absent
    (setup : Setup)
    (ordered : request.disk.Ordered)
    (isReady : request.Ready store ready files)
    {base : Place}
    (absent : request.disk.kindAt? base = none)
    (total : Nat)
    (trail : List String) :
    (processAll setup.migrator setup.options total ready files).disk.kindAt? (base ++ trail) =
      ready.disk.kindAt? (base ++ trail) := by
  by_contra changed
  obtain ⟨file, member, leads⟩ := exists_of_changed setup ordered isReady changed
  obtain ⟨_, entry⟩ := (isReady.candidates file member).there
  have there := entry.found
  rw [Except.ok.inj (entry.leads.symm.trans leads)] at there
  exact Disk.not_prefix_of_absent absent there (List.prefix_append _ _)

/--
Every regular file that a run with a backup changes has its old content in the backup, at
its path below the root, if no files were given or a walk would come to it, and if the
backup marks no directory on the way.  Every file in the backup was below the root before
the run, and nothing in the backup was copied out of it.
-/
theorem changed_files_within_reach_are_backed_up
    {failures : String → Option WriteFailure}
    (writes : request.migrator.writer = .failing failures)
    (ordered : request.disk.Ordered)
    (asked : request.options.backup = true)
    (real : request.options.dryRun = false)
    (prepared : request.prepared? store = some (ready, files))
    (inSight : request.BackupInSight ready.disk) :
    let last := (run request.migrator request.options request.disk store).state.disk
    (∀ place content mode,
      request.disk.kindAt? place = some (.file content mode) →
        last.kindAt? place ≠ some (.file content mode) →
        request.options.files = [] ∨ request.WithinReach place →
        ¬ request.MarkedByBackup ready.disk place →
        ∃ top base trail copyMode,
          request.disk.placeOf request.root.path = .ok top ∧
            ready.disk.targetOf request.backupTarget.path = .ok base ∧
            place = top ++ trail ∧
            last.kindAt? (base ++ trail) = some (.file content copyMode)) ∧
      ∀ top base trail kind,
        request.disk.placeOf request.root.path = .ok top →
          ready.disk.targetOf request.backupTarget.path = .ok base →
          last.kindAt? (base ++ trail) = some kind →
          ¬ base <+: top ++ trail ∧
            ∀ content mode, kind = .file content mode →
              ∃ oldMode, request.disk.kindAt? (top ++ trail) = some (.file content oldMode) := by
  intro last
  let setup : Setup := ⟨request.migrator, request.options, failures, writes⟩
  have isReady := ready_of_prepared ordered prepared
  have isLast : last =
      (processAll request.migrator request.options files.length ready files).disk := by
    change (run request.migrator request.options request.disk store).state.disk = _
    rw [run_eq_of_prepared prepared, disk_record]
  have untouched {base : Place} (absent : request.disk.kindAt? base = none)
      (trail : List String) : last.kindAt? (base ++ trail) = ready.disk.kindAt? (base ++ trail) := by
    rw [isLast]
    exact kindAt?_of_absent setup ordered isReady absent files.length trail
  have within {place : Place} {kind : Node.Kind} (found : request.disk.kindAt? place = some kind)
      (changed : last.kindAt? place ≠ some kind)
      (reach : request.options.files = [] ∨ request.WithinReach place) :
      request.WithinReach place := by
    refine reach.elim (fun noFile => ?_) id
    rw [isLast, ← isReady.kept place _ found] at changed
    exact withinReach_of_changed setup ordered isReady noFile changed
  cases isReady.backedUp (by simp [backsUp, asked, real]) with
  | @link top path leads isLink free same =>
      constructor
      · -- a walk comes to nothing behind a link
        intro place content mode found changed reach _
        obtain ⟨otherTop, _, trail, otherLeads, rfl, _⟩ := within found changed reach
        obtain rfl := Except.ok.inj (leads.symm.trans otherLeads)
        cases trail with
        | nil =>
            rw [List.append_nil] at found
            exact absurd (isLink.symm.trans found) (by simp)
        | cons name rest =>
            exact absurd (isLink.symm.trans (Node.kindAt?_of_append found)) (by simp)
      · intro _ base trail kind _ isBase found
        rw [same] at isBase
        have absent := Disk.absent_of_not_exists free isBase
        rw [untouched absent, same] at found
        exact absurd (List.prefix_append base trail) (Disk.not_prefix_of_absent absent found)
  | @copied top base leads backedUp =>
      constructor
      · intro place content mode found changed reach unmarked
        obtain ⟨otherTop, node, trail, otherLeads, rfl, isRoot, isOpen⟩ :=
          within found changed reach
        obtain rfl := Except.ok.inj (leads.symm.trans otherLeads)
        refine ⟨top, base, trail, Disk.maskedMode mode, leads, backedUp.leads, rfl, ?_⟩
        rw [untouched backedUp.absent]
        refine backedUp.complete node trail content mode isRoot ?_ isOpen
          fun marks => unmarked ⟨top, trail, leads, rfl, marks⟩
        unfold Disk.kindAt? at found
        rwa [Node.kindAt?_append, isRoot] at found
      · intro otherTop otherBase trail kind otherLeads isBase found
        obtain rfl := Except.ok.inj (leads.symm.trans otherLeads)
        obtain rfl := Except.ok.inj (backedUp.leads.symm.trans isBase)
        rw [untouched backedUp.absent] at found
        refine ⟨backedUp.apart (inSight top base leads isBase) trail kind found, ?_⟩
        rintro content mode rfl
        exact backedUp.faithful trail content mode found

/-- A run with a backup, where a directory is passed over. -/
def withBackup
    (disk : Disk)
    (root : String)
    (given : List String) :
    Request where
  migrator :=
    { (byDefault disk).migrator with
      walker := Walker.ofGlobs [] [".godot"] [] }
  options := { root := root, files := given, backup := true, backupStem := "backup_" }
  disk := disk

theorem writer_withBackup
    (disk : Disk)
    (root : String)
    (given : List String) :
    (withBackup disk root given).migrator.writer = .failing fun _ => none := by
  rw [FileWriter.failing_none, withBackup, byDefault]

/-- A script beside another one in a directory that a walk passes over. -/
def hiddenScript : Node :=
  .directory
    [(".godot", .directory [("y.gd", .file (.text "tool\n".toList) Disk.defaultMode)]),
      ("x.gd", .file (.text "tool\n".toList) Disk.defaultMode)]

/-- A run in a directory behind a link. -/
def behindLink : Request :=
  withBackup { root := .directory [("l", .link "p"), ("p", .directory [("q", hiddenScript)])] }
    "/l/q" []

theorem ordered_behindLink :
    behindLink.disk.Ordered := by
  have hidden : hiddenScript.Ordered := by
    refine .directory (by decide) (by decide) ?_
    refine List.forall_mem_cons.mpr ⟨?_, List.forall_mem_singleton.mpr (.file _ _)⟩
    exact .directory (by decide) (by decide) (List.forall_mem_singleton.mpr (.file _ _))
  refine ⟨.directory (by decide) (by decide) ?_, rfl⟩
  refine List.forall_mem_cons.mpr ⟨.link _, List.forall_mem_singleton.mpr ?_⟩
  exact .directory (by decide) (by decide) (List.forall_mem_singleton.mpr hidden)

/-- A walk comes to one of the scripts, and the backup holds what the run changes there. -/
theorem script_in_reach_is_changed_and_backed_up :
    let request := behindLink
    let last := (run request.migrator request.options request.disk (.memory {})).state.disk
    last.kindAt? ["p", "q", "x.gd"] = some (.file (.text "@tool\n".toList) Disk.defaultMode) ∧
      ∃ copyMode,
        last.kindAt? ["p", "q", "backup_19700101_000000", "x.gd"] =
          some (.file (.text "tool\n".toList) copyMode) := by
  intro request last
  have topLeads : request.disk.placeOf request.root.path = .ok ["p", "q"] := by
    decide +kernel
  have isTarget : request.backupTarget = request.root ++ ["backup_19700101_000000"] := by
    decide +kernel
  have changed :
      last.kindAt? ["p", "q", "x.gd"] = some (.file (.text "@tool\n".toList) Disk.defaultMode) := by
    decide +kernel
  have facts :
      (request.prepared? (.memory {})).map (fun reached =>
        (reached.1.disk.targetOf request.backupTarget.path,
          Walker.marked reached.1.disk request.root ["x.gd"])) =
      some (.ok ["p", "q", "backup_19700101_000000"], false) := by
    decide +kernel
  obtain ⟨⟨ready, files⟩, prepared, found⟩ := Option.map_eq_some_iff.mp facts
  obtain ⟨baseLeads, notMarked⟩ := Prod.mk.inj found
  have writes : request.migrator.writer = .failing fun _ => none :=
    writer_withBackup ..
  have inSight : request.BackupInSight ready.disk := by
    intro top base isTop isBase rest within
    obtain rfl := Except.ok.inj (topLeads.symm.trans isTop)
    obtain rfl := Except.ok.inj (baseLeads.symm.trans isBase)
    obtain rfl : rest = ["backup_19700101_000000"] := by
      simpa using within.symm
    exact isTarget
  have unmarked : ¬ request.MarkedByBackup ready.disk ["p", "q", "x.gd"] := by
    rintro ⟨top, trail, isTop, isPlace, above, below, parts, notEmpty, _, marked⟩
    obtain rfl := Except.ok.inj (topLeads.symm.trans isTop)
    obtain rfl : trail = ["x.gd"] := by
      simpa using isPlace.symm
    obtain ⟨first, rest, rfl⟩ := List.exists_cons_of_ne_nil notEmpty
    obtain ⟨rfl, noRest⟩ := List.cons.inj parts
    obtain ⟨rfl, _⟩ := List.append_eq_nil_iff.mp noRest.symm
    exact absurd (marked.symm.trans notMarked) (by simp)
  obtain ⟨top, base, trail, copyMode, isTop, isBase, isPlace, copied⟩ :=
    (changed_files_within_reach_are_backed_up writes ordered_behindLink rfl rfl prepared inSight).1
      ["p", "q", "x.gd"] (.text "tool\n".toList) Disk.defaultMode (by decide +kernel)
      (by rw [changed]; decide) (.inl rfl) unmarked
  obtain rfl := Except.ok.inj (topLeads.symm.trans isTop)
  obtain rfl := Except.ok.inj (baseLeads.symm.trans isBase)
  obtain rfl : trail = ["x.gd"] := by
    simpa using isPlace.symm
  exact ⟨changed, copyMode, copied⟩

/-- A text beside a link that a walk finds as a script. -/
def linkedScriptDisk : Disk where
  root := .directory
    [("text.txt", .file (.text "tool\n".toList) Disk.defaultMode), ("x.gd", .link "text.txt")]

/--
A run changes a file that was given by name and is not in the backup; and it replaces a
link by a script with the new content, where nothing in the backup has the old one.
-/
theorem hidden_and_linked_scripts_are_not_backed_up :
    let hidden := withBackup { root := hiddenScript } "/" ["/.godot/y.gd"]
    let linked := withBackup linkedScriptDisk "/" []
    let ended (request : Request) :=
      run request.migrator request.options request.disk (.memory {})
    ((ended hidden).reached = true ∧
      hidden.disk.kindAt? (hidden.root ++ [".godot", "y.gd"]) =
        some (.file (.text "tool\n".toList) Disk.defaultMode) ∧
      (ended hidden).state.disk.kindAt? (hidden.root ++ [".godot", "y.gd"]) =
        some (.file (.text "@tool\n".toList) Disk.defaultMode) ∧
      (ended hidden).state.disk.kindAt? hidden.backupTarget = some .directory ∧
      (ended hidden).state.disk.kindAt? (hidden.backupTarget ++ [".godot", "y.gd"]) = none) ∧
    (ended linked).reached = true ∧
      linked.disk.readText "/x.gd" = .ok "tool\n".toList ∧
      (ended linked).state.disk.readText "/x.gd" = .ok "@tool\n".toList ∧
      (ended linked).state.disk.kindAt? linked.backupTarget = some .directory ∧
      (ended linked).state.disk.kindAt? (linked.backupTarget ++ ["x.gd"]) = none := by
  decide +kernel

-- a backup that makes a marker on its way leaves a directory out that the run came to
example :
    let request : Request :=
      { byDefault { root := hiddenScript } with
        options := { root := "/", backup := true, backupStem := ".godot/.gdignore/backup_" } }
    let last := (run request.migrator request.options request.disk (.memory {})).state.disk
    last.kindAt? [".godot", "y.gd"] =
        some (.file (.text "@tool\n".toList) Disk.defaultMode) ∧
      last.kindAt? (request.backupTarget ++ ["x.gd"]) =
        some (.file (.text "tool\n".toList) Disk.defaultMode) ∧
      last.kindAt? (request.backupTarget ++ [".godot", "y.gd"]) = none := by
  decide +kernel

end Request

end Migration

end ScriptUplift
