import Mathlib.Tactic.Common
import ScriptUplift.Proofs.EntryPaths

namespace ScriptUplift

/-!
# Changes of the disk

Most operations change a single place.  A new file comes to stand where its path leads;
a new directory is made along the path as far as something is there, through links, too,
with the directories that are missing on the way.
-/

/-! ## A single place -/

/-- A disk differs from another one at a single place, if at all. -/
structure Disk.Changed
    (before : Disk)
    (place : Place)
    (kind : Option Node.Kind)
    (after : Disk) :
    Prop where
  ordered : after.Ordered
  workDir : after.workDir = before.workDir
  seen : ∀ other, after.kindAt? other = if other = place then kind else before.kindAt? other

namespace Disk.Changed

variable {before middle after : Disk} {place : Place} {kind first second : Option Node.Kind}

theorem own
    (changed : Disk.Changed before place kind after) :
    after.kindAt? place = kind := by
  rw [changed.seen, if_pos rfl]

theorem other
    (changed : Disk.Changed before place kind after)
    {elsewhere : Place}
    (different : elsewhere ≠ place) :
    after.kindAt? elsewhere = before.kindAt? elsewhere := by
  rw [changed.seen, if_neg different]

theorem idle
    (ordered : before.Ordered)
    (held : before.kindAt? place = kind) :
    Disk.Changed before place kind before where
  ordered := ordered
  workDir := rfl
  seen := by
    intro elsewhere
    split
    · rename_i same
      rw [same, held]
    · rfl

theorem trans
    (earlier : Disk.Changed before place first middle)
    (later : Disk.Changed middle place second after) :
    Disk.Changed before place second after where
  ordered := later.ordered
  workDir := later.workDir.trans earlier.workDir
  seen := by
    intro elsewhere
    rw [later.seen, earlier.seen]
    split <;> rfl

/-- A change that is taken back leaves the disk. -/
theorem eq_of_undone
    (ordered : before.Ordered)
    (earlier : Disk.Changed before place first middle)
    (later : Disk.Changed middle place (before.kindAt? place) after) :
    after = before := by
  apply later.ordered.eq_of_kindAt? ordered (later.workDir.trans earlier.workDir)
  intro elsewhere
  rw [(earlier.trans later).seen]
  split
  · rename_i same
    rw [same]
  · rfl

theorem eq_of_same
    {other : Disk}
    (changed : Disk.Changed before place kind after)
    (alike : Disk.Changed before place kind other) :
    after = other := by
  apply changed.ordered.eq_of_kindAt? alike.ordered (changed.workDir.trans alike.workDir.symm)
  intro elsewhere
  rw [changed.seen, alike.seen]

theorem put_file
    {parent : Place}
    {name : String}
    (ordered : before.Ordered)
    (named : Place.Named (parent ++ [name]))
    (held : before.kindAt? parent = some .directory)
    (free : before.kindAt? (parent ++ [name]) ≠ some .directory)
    (content : Content)
    (mode : Nat) :
    Disk.Changed before (parent ++ [name]) (some (.file content mode))
      (before.put (parent ++ [name]) (.file content mode)) where
  ordered := ordered.put_file named held free content mode
  workDir := rfl
  seen := Disk.kindAt?_put_file held free content mode

theorem remove_file
    {content : Content}
    {mode : Nat}
    (ordered : before.Ordered)
    (held : before.kindAt? place = some (.file content mode)) :
    Disk.Changed before place none (before.remove place) where
  ordered := ordered.remove_file held
  workDir := rfl
  seen := Disk.kindAt?_remove_file ordered held

end Disk.Changed

/-- An entry stays where the only change is at a place where nothing stood. -/
theorem Disk.Entry.of_changed
    {before after : Disk}
    {names place new : Place}
    {kind : Node.Kind}
    {made : Option Node.Kind}
    (ordered : before.Ordered)
    (entry : before.Entry names place kind)
    (free : before.kindAt? new = none)
    (changed : before.Changed new made after) :
    after.Entry names place kind := by
  refine entry.congr ordered changed.ordered fun passed isPassed => changed.other ?_
  rintro rfl
  obtain ⟨_, there⟩ := entry.exists_kind_of_mem_entryWay ordered passed isPassed
  rw [free] at there
  cases there

/-- A path that leads to an entry after a file was put somewhere led to it before. -/
theorem Disk.Changed.placeOf_of_file
    {before after : Disk}
    {names place reached : Place}
    {content : Content}
    {mode : Nat}
    (ordered : before.Ordered)
    (changed : before.Changed place (some (.file content mode)) after)
    (named : names.Named)
    (leads : after.placeOf names.path = .ok reached) :
    before.placeOf names.path = .ok reached := by
  rw [placeOf, resolve_path changed.ordered named] at leads
  rw [placeOf, resolve_path ordered named]
  have isFile : after.root.kindAt? place = some (.file content mode) := changed.own
  exact follow_of_replaced (by simp [isFile]) (by simp [isFile]) (by simp) (fun _ => changed.other)
    leads

namespace Disk

/-- Where a path that does not lead to something leads, nothing stands. -/
theorem absent_of_not_exists
    {disk : Disk}
    {path : String}
    {place : Place}
    (missing : disk.exists? path = false)
    (leads : disk.targetOf path = .ok place) :
    disk.kindAt? place = none := by
  rw [exists?, find, leads, nodeAt] at missing
  refine Option.map_eq_none_iff.mpr ?_
  cases present : disk.root.get? place with
  | none =>
      rfl
  | some node =>
      rw [present] at missing
      cases missing

/-- A file that is written where nothing was is all that is new, and its path leads to it. -/
theorem exists_changed_of_write
    {disk after : Disk}
    {names : Place}
    {content : Content}
    {mode : Nat}
    (ordered : disk.Ordered)
    (named : names.Named)
    (missing : disk.exists? names.path = false)
    (written : disk.write names.path content mode = .ok after) :
    ∃ place,
      disk.kindAt? place = none ∧
        after.targetOf names.path = .ok place ∧
        disk.Changed place (some (.file content (maskedMode mode))) after := by
  unfold write at written
  split at written
  · cases written
  · rename_i place leads
    have absent : disk.kindAt? place = none := absent_of_not_exists missing leads
    rw [Node.get?_of_kindAt?_none absent] at written
    obtain rfl := Except.ok.inj written
    rw [targetOf, resolve_path ordered named] at leads
    obtain ⟨parent, name, rfl, held, isName⟩ := behindDirectory_of_follow
      (fun other member => (named other member).2.2.2) (by simp) absent leads
    have placeNamed : Place.Named (parent ++ [name]) :=
      List.forall_mem_append.mpr ⟨ordered.named held, List.forall_mem_singleton.mpr isName⟩
    have changed : disk.Changed (parent ++ [name]) _ _ :=
      .put_file ordered placeNamed held (by simp [absent]) content (maskedMode mode)
    refine ⟨parent ++ [name], absent, ?_, changed⟩
    have isFree : disk.root.kindAt? (parent ++ [name]) = none := absent
    have isFile : (disk.put (parent ++ [name]) _).root.kindAt? (parent ++ [name]) =
        some (.file content (maskedMode mode)) :=
      changed.own
    rw [targetOf, resolve_path changed.ordered named]
    exact follow_of_replaced (by simp [isFree]) (by simp [isFree]) (by simp [isFile])
      (fun other different => (changed.other different).symm) leads

end Disk

/-! ## A new directory -/

namespace Disk

variable {disk ready : Disk} {target base : Place}

/--
Names lead along directories as far as these go; the rest of the names comes behind the
last of them, where nothing stands.
-/
theorem passage_spec
    (ordered : disk.Ordered)
    {seen here names place : Place}
    (named : Place.Named (seen ++ names))
    (opens : disk.targetOf seen.path = .ok here)
    (held : disk.kindAt? here = some .directory)
    (passes : disk.passage seen here names = .ok place) :
    ∃ front above rest,
      seen ++ names = front ++ rest ∧
        place = above ++ rest ∧
        disk.targetOf (Place.path front) = .ok above ∧
        disk.kindAt? above = some .directory ∧
        ∀ name others, rest = name :: others → disk.kindAt? (above ++ [name]) = none := by
  induction names generalizing seen here with
  | nil =>
      refine ⟨seen, here, [], rfl, ?_, opens, held, fun _ _ isCons => ?_⟩
      · rw [List.append_nil, Except.ok.inj passes]
      · cases isCons
  | cons name rest inductionHypothesis =>
      have seenNamed : Place.Named (seen ++ [name]) := fun other member =>
        named other (by rw [List.append_cons]; exact List.mem_append_left _ member)
      rw [passage] at passes
      split at passes
      · rename_i nothing
        obtain rfl := Except.ok.inj passes
        refine ⟨seen, here, name :: rest, rfl, rfl, opens, held, ?_⟩
        rintro first others isCons
        obtain ⟨rfl, _⟩ := List.cons.inj isCons
        exact Option.map_eq_none_iff.mpr nothing
      · rename_i entries isDirectory
        have below : disk.kindAt? (here ++ [name]) = some .directory :=
          Node.kindAt?_of_get? isDirectory
        rw [List.append_cons] at named ⊢
        exact inductionHypothesis named
          (resolve_behind ordered seenNamed opens held fun _ _ => by simp [below]) below passes
      · cases passes
      · split at passes
        · cases passes
        · rename_i there leads
          split at passes
          · rename_i entries isDirectory
            rw [List.append_cons] at named ⊢
            exact inductionHypothesis named leads (Node.kindAt?_of_get? isDirectory) passes
          · cases passes
          · cases passes

/-- A new empty directory and the directories on the way to it are all that is new. -/
structure Opened
    (disk : Disk)
    (target base : Place)
    (ready : Disk) :
    Prop where
  ordered : ready.Ordered
  workDir : ready.workDir = disk.workDir
  leads : ready.placeOf target.path = .ok base
  absent : disk.kindAt? base = none
  seen : ∀ place, ready.kindAt? place =
    if base <+: place then (Node.directory []).kindAt? (place.drop base.length)
    else if place <+: base then some .directory
    else disk.kindAt? place
  kept : ∀ place kind, disk.kindAt? place = some kind → ready.kindAt? place = some kind

theorem not_prefix_of_absent
    (absent : disk.kindAt? target = none)
    {place : Place}
    {kind : Node.Kind}
    (found : disk.kindAt? place = some kind) :
    ¬ target <+: place := by
  rintro ⟨rest, rfl⟩
  cases rest with
  | nil =>
      rw [List.append_nil, absent] at found
      cases found
  | cons name others =>
      exact absurd (absent.symm.trans (Node.kindAt?_of_append found)) (by simp)

/-- Behind a directory in which a name is free, nothing is in the way. -/
theorem clear_of_absent
    {above : Place}
    {name : String}
    (held : disk.kindAt? above = some .directory)
    (absent : disk.kindAt? (above ++ [name]) = none)
    (others : List String) :
    disk.root.Clear (above ++ name :: others) := by
  intro front next below parts kind found
  have shorter : front <+: above ++ name :: others := parts ▸ List.prefix_append _ _
  have isNext : above ++ [name] <+: above ++ name :: others := ⟨others, by simp⟩
  have within : front <+: above := by
    rcases List.prefix_or_prefix_of_prefix shorter isNext with isAbove | isBelow
    · refine (List.prefix_concat_iff.mp isAbove).resolve_left ?_
      rintro rfl
      exact not_prefix_of_absent absent found List.prefix_rfl
    · exact absurd isBelow (not_prefix_of_absent absent found)
  obtain ⟨rest, rfl⟩ := within
  cases rest with
  | nil =>
      rw [List.append_nil] at held
      exact (Option.some.inj (held.symm.trans found)).symm
  | cons first more =>
      exact (Option.some.inj ((Node.kindAt?_of_append held).symm.trans found)).symm

/-- A new directory behind one that a path leads to is opened by putting it there. -/
theorem opened_put
    (ordered : disk.Ordered)
    {front above : Place}
    {name : String}
    {others : List String}
    (named : Place.Named (front ++ name :: others))
    (opens : disk.targetOf front.path = .ok above)
    (held : disk.kindAt? above = some .directory)
    (free : disk.kindAt? (above ++ [name]) = none) :
    Opened disk (front ++ name :: others) (above ++ name :: others)
      (disk.put (above ++ name :: others) (.directory [])) := by
  have clear := clear_of_absent held free others
  have absent : disk.kindAt? (above ++ name :: others) = none := by
    by_contra present
    obtain ⟨kind, found⟩ := Option.ne_none_iff_exists'.mp present
    exact not_prefix_of_absent free found ⟨others, by simp⟩
  have seen (place : Place) :
      (disk.put (above ++ name :: others) (.directory [])).kindAt? place =
        if above ++ name :: others <+: place then
          (Node.directory []).kindAt? (place.drop (above ++ name :: others).length)
        else if place <+: above ++ name :: others then some .directory
        else disk.kindAt? place :=
    Node.kindAt?_put clear _ place
  have kept (place : Place) (kind : Node.Kind) (found : disk.kindAt? place = some kind) :
      (disk.put (above ++ name :: others) (.directory [])).kindAt? place = some kind := by
    rw [seen, if_neg (not_prefix_of_absent absent found)]
    split
    · rename_i isAbove
      obtain ⟨rest, parts⟩ := isAbove
      cases rest with
      | nil =>
          rw [List.append_nil] at parts
          exact absurd (parts ▸ List.prefix_rfl) (not_prefix_of_absent absent found)
      | cons first more =>
          rw [clear place first more parts.symm kind found]
    · exact found
  have baseNamed : Place.Named (above ++ name :: others) := by
    intro other member
    rcases List.mem_append.mp member with inAbove | inRest
    · exact ordered.named held other inAbove
    · exact named other (List.mem_append_right _ inRest)
  have readyOrdered : (disk.put (above ++ name :: others) (.directory [])).Ordered :=
    ⟨ordered.tree.put .empty baseNamed, kept [] _ ordered.rooted⟩
  have frontNamed : front.Named := fun other member => named other (List.mem_append_left _ member)
  have isDirectory : (disk.put (above ++ name :: others) (.directory [])).kindAt?
      (above ++ name :: others) = some .directory := by
    rw [seen, if_pos List.prefix_rfl]
    simp [Node.kind]
  exact
    { ordered := readyOrdered
      workDir := rfl
      leads := placeOf_append readyOrdered named (by simp)
        (resolve_of_kept ordered readyOrdered kept frontNamed opens held) isDirectory
      absent := absent
      seen := seen
      kept := kept }

theorem opened_of_makeDirectories
    (ordered : disk.Ordered)
    (named : target.Named)
    (missing : disk.exists? target.path = false)
    (made : disk.makeDirectories target.path = .ok ready) :
    ∃ base, Opened disk target base ready := by
  unfold makeDirectories at made
  rw [Path.place_path named] at made
  split at made
  · cases made
  · rename_i place leads
    obtain ⟨front, above, rest, isTarget, rfl, opens, held, free⟩ :=
      passage_spec ordered (by exact named) (resolve_root ordered true) ordered.rooted leads
    obtain rfl : target = front ++ rest := isTarget
    cases rest with
    | nil =>
        obtain ⟨entries, isDirectory⟩ := Node.get?_of_kindAt?_directory held
        rw [List.append_nil, exists?, find, opens, nodeAt, isDirectory] at missing
        cases missing
    | cons name others =>
        have opened := opened_put ordered named opens held (free name others rfl)
        rw [if_neg (by simp [Node.get?_of_kindAt?_none opened.absent])] at made
        obtain rfl := Except.ok.inj made
        exact ⟨_, opened⟩

/-- Every file was there before the directory. -/
theorem Opened.file
    (opened : Opened disk target base ready)
    {place : Place}
    {content : Content}
    {mode : Nat}
    (found : ready.kindAt? place = some (.file content mode)) :
    disk.kindAt? place = some (.file content mode) := by
  rw [opened.seen] at found
  split at found
  · rename_i below
    obtain ⟨rest, rfl⟩ := below
    rw [List.drop_left] at found
    cases rest <;> simp [Node.kind, Node.kindAt?_directory_cons] at found
  · split at found
    · cases found
    · exact found

end Disk

end ScriptUplift
