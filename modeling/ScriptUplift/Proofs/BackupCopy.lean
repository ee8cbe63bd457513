import Mathlib.Tactic.Common
import ScriptUplift.Disk.Backup
import ScriptUplift.Proofs.ChangedDisk

namespace ScriptUplift

/-!
# Walking and copying a tree

A walk finds files and links to which no directory on the way is passed over.  A
backup copies every such file, whatever its name, and nothing but files of the tree;
what was on the disk before stays there.
-/

namespace Walker

variable {walker : Walker} {isMarked : List String → Bool}

/-- No directory on the way to a place below a node is passed over. -/
def Open
    (walker : Walker)
    (isMarked : List String → Bool)
    (start : List String)
    (node : Node)
    (trail : List String) :
    Prop :=
  ∀ above name below entries,
    trail = above ++ name :: below →
      node.get? (above ++ [name]) = some (.directory entries) →
      walker.skips isMarked name (start ++ above ++ [name]) = false

theorem open_nil
    (start : List String)
    (node : Node) :
    walker.Open isMarked start node [] := by
  intro above name below entries parts
  simp at parts

theorem open_cons
    {entries : List (String × Node)}
    {name : String}
    {child : Node}
    (found : entries.lookup name = some child)
    (start rest : List String) :
    walker.Open isMarked start (.directory entries) (name :: rest) ↔
      (∀ inner, child = .directory inner →
        walker.skips isMarked name (start ++ [name]) = false) ∧
        walker.Open isMarked (start ++ [name]) child rest := by
  constructor
  · intro isOpen
    constructor
    · intro inner isInner
      have own := isOpen [] name rest inner rfl
      rw [List.nil_append, Node.get?_directory_cons, found, isInner] at own
      simpa using own rfl
    · intro above next below inner parts seen
      have own := isOpen (name :: above) next below inner (by rw [parts]; rfl)
      rw [List.cons_append, Node.get?_directory_cons, found] at own
      simpa using own seen
  · rintro ⟨own, below⟩ above next rest' inner parts seen
    cases above with
    | nil =>
        obtain ⟨rfl, rfl⟩ := List.cons.inj parts
        rw [List.nil_append, Node.get?_directory_cons, found] at seen
        have isInner : child = .directory inner := by
          simpa using seen
        simpa using own inner isInner
    | cons first others =>
        obtain ⟨rfl, rfl⟩ := List.cons.inj parts
        rw [List.cons_append, Node.get?_directory_cons, found] at seen
        simpa using below others next rest' inner rfl seen

theorem mem_filesOf
    {found : List String × Content}
    {trail : List String}
    {entries : List (String × Node)} :
    found ∈ walker.filesOf isMarked trail entries ↔
      ∃ entry ∈ entries, found ∈ walker.filesBelow isMarked entry.1 (trail ++ [entry.1]) entry.2 := by
  induction entries with
  | nil =>
      simp [filesOf]
  | cons entry rest inductionHypothesis =>
      simp [filesOf, inductionHypothesis]

/-- Every file or link of a walk stands below its start, and the way to it is open. -/
theorem filesBelow_sound
    {node : Node}
    (ordered : node.Ordered)
    {name : String}
    {start found : List String}
    {content : Content}
    (finds : (found, content) ∈ walker.filesBelow isMarked name start node) :
    (∀ inner, node = .directory inner → walker.skips isMarked name start = false) ∧
      ∃ rest kind,
        found = start ++ rest ∧
          node.kindAt? rest = some kind ∧
          kind ≠ .directory ∧
          walker.Open isMarked start node rest := by
  induction ordered generalizing name start with
  | file held mode =>
      rw [filesBelow] at finds
      split at finds
      · obtain ⟨rfl, rfl⟩ := Prod.mk.inj (List.mem_singleton.mp finds)
        exact ⟨by simp, [], .file content mode, by simp, rfl, by simp, open_nil _ _⟩
      · cases finds
  | link target =>
      rw [filesBelow] at finds
      split at finds
      · obtain ⟨rfl, rfl⟩ := Prod.mk.inj (List.mem_singleton.mp finds)
        exact ⟨by simp, [], .link target, by simp, rfl, by simp, open_nil _ _⟩
      · cases finds
  | @directory entries sorted named below inductionHypothesis =>
      rw [filesBelow] at finds
      split at finds
      · cases finds
      · rename_i shown
        obtain ⟨⟨first, child⟩, member, inside⟩ := mem_filesOf.mp finds
        have lookedUp := sorted.lookup_of_mem member
        obtain ⟨entered, rest, kind, isFound, seen, leaf, isOpen⟩ :=
          inductionHypothesis _ member inside
        refine ⟨fun _ _ => by simpa using shown, first :: rest, kind, ?_, ?_, leaf,
          (open_cons lookedUp _ _).mpr ⟨entered, isOpen⟩⟩
        · simpa using isFound
        · rw [Node.kindAt?_directory_cons, lookedUp]
          exact seen

theorem filesAt_sound
    {node : Node}
    (ordered : node.Ordered)
    {found : List String}
    {content : Content}
    (finds : (found, content) ∈ walker.filesAt isMarked node) :
    (∃ kind, node.kindAt? found = some kind ∧ kind ≠ .directory) ∧
      walker.Open isMarked [] node found := by
  cases node with
  | file held mode =>
      rw [filesAt] at finds
      split at finds
      · obtain ⟨rfl, rfl⟩ := Prod.mk.inj (List.mem_singleton.mp finds)
        exact ⟨⟨.file content mode, rfl, by simp⟩, open_nil _ _⟩
      · cases finds
  | link target =>
      rw [filesAt] at finds
      split at finds
      · obtain ⟨rfl, rfl⟩ := Prod.mk.inj (List.mem_singleton.mp finds)
        exact ⟨⟨.link target, rfl, by simp⟩, open_nil _ _⟩
      · cases finds
  | directory entries =>
      obtain ⟨⟨first, child⟩, member, inside⟩ := mem_filesOf.mp finds
      cases ordered with
      | directory sorted named below =>
          have lookedUp := sorted.lookup_of_mem member
          obtain ⟨entered, rest, kind, rfl, seen, leaf, isOpen⟩ :=
            filesBelow_sound (below _ member) inside
          refine ⟨⟨kind, ?_, leaf⟩, (open_cons lookedUp _ _).mpr ⟨entered, isOpen⟩⟩
          rw [List.nil_append, List.singleton_append, Node.kindAt?_directory_cons, lookedUp]
          exact seen

end Walker

/-- Where an item is made below the directory of a backup. -/
def BackupItem.trail : BackupItem → List String
  | .directory trail => trail
  | .file trail _ _ => trail

/-- What an item is a copy of. -/
def BackupItem.kind : BackupItem → Node.Kind
  | .directory _ => .directory
  | .file _ content mode => .file content mode

/-- What a copy is. -/
def Node.Kind.copied : Node.Kind → Node.Kind
  | .file content mode => .file content (Disk.maskedMode mode)
  | .link target => .link target
  | .directory => .directory

namespace Backup

theorem mem_itemsOf
    {walker : Option Walker}
    {isMarked : List String → Bool}
    {target : Option (List String)}
    {item : BackupItem}
    {trail : List String}
    {entries : List (String × Node)} :
    item ∈ itemsOf walker isMarked target trail entries ↔
      ∃ entry ∈ entries,
        item ∈ itemsBelow walker isMarked target entry.1 (trail ++ [entry.1]) entry.2 := by
  induction entries with
  | nil =>
      simp [itemsOf]
  | cons entry rest inductionHypothesis =>
      simp [itemsOf, inductionHypothesis]

/-- Every item is a copy of something in the tree. -/
theorem itemsBelow_sound
    {walker : Option Walker}
    {isMarked : List String → Bool}
    {target : Option (List String)}
    {node : Node}
    (ordered : node.Ordered)
    {name : String}
    {start : List String}
    {item : BackupItem}
    (isItem : item ∈ itemsBelow walker isMarked target name start node) :
    ∃ rest, item.trail = start ++ rest ∧ node.kindAt? rest = some item.kind := by
  induction ordered generalizing name start with
  | file held mode =>
      rw [itemsBelow, List.mem_singleton] at isItem
      subst isItem
      exact ⟨[], by simp [BackupItem.trail], rfl⟩
  | link path =>
      rw [itemsBelow] at isItem
      cases isItem
  | @directory entries sorted named below inductionHypothesis =>
      rw [itemsBelow] at isItem
      split at isItem
      · cases isItem
      · rcases List.mem_cons.mp isItem with rfl | inside
        · exact ⟨[], by simp [BackupItem.trail], rfl⟩
        · obtain ⟨⟨first, child⟩, member, inEntry⟩ := mem_itemsOf.mp inside
          obtain ⟨rest, isTrail, isKind⟩ := inductionHypothesis _ member inEntry
          refine ⟨first :: rest, by simpa using isTrail, ?_⟩
          rw [Node.kindAt?_directory_cons, sorted.lookup_of_mem member]
          exact isKind

/-- A file to which the way is open is copied, unless it is in the directory of the backup. -/
theorem file_mem_itemsBelow
    {walker : Walker}
    {isMarked : List String → Bool}
    {target : Option (List String)}
    {node : Node}
    {name : String}
    {start rest : List String}
    {content : Content}
    {mode : Nat}
    (found : node.get? rest = some (.file content mode))
    (entered : ∀ inner, node = .directory inner → walker.skips isMarked name start = false)
    (isOpen : walker.Open isMarked start node rest)
    (outside : ∀ above below, rest = above ++ below → below ≠ [] → target ≠ some (start ++ above)) :
    .file (start ++ rest) content mode ∈
      itemsBelow (some walker) isMarked target name start node := by
  induction rest generalizing node name start with
  | nil =>
      have isFile : node = .file content mode := by
        simpa using found
      rw [isFile, itemsBelow, List.append_nil]
      exact List.mem_singleton.mpr rfl
  | cons next others inductionHypothesis =>
      cases node with
      | file held heldMode =>
          cases found
      | link path =>
          cases found
      | directory entries =>
          rw [Node.get?_directory_cons] at found
          obtain ⟨child, lookedUp, below⟩ := Option.bind_eq_some_iff.mp found
          obtain ⟨childEntered, childOpen⟩ := (Walker.open_cons lookedUp _ _).mp isOpen
          have notTarget : target ≠ some start := by
            simpa using outside [] (next :: others) rfl (by simp)
          rw [itemsBelow, if_neg (by simp [notTarget, leavesOut, entered entries rfl])]
          refine List.mem_cons_of_mem _ (mem_itemsOf.mpr ⟨_, Entries.mem_of_lookup lookedUp, ?_⟩)
          have copied := inductionHypothesis below childEntered childOpen (by
            intro above rest parts notEmpty
            simpa using outside (next :: above) rest (by rw [parts]; rfl) notEmpty)
          simpa using copied

theorem file_mem_itemsOf
    {walker : Walker}
    {isMarked : List String → Bool}
    {target : Option (List String)}
    {entries : List (String × Node)}
    {trail : List String}
    {content : Content}
    {mode : Nat}
    (found : (Node.directory entries).get? trail = some (.file content mode))
    (isOpen : walker.Open isMarked [] (.directory entries) trail)
    (outside : ∀ above below, trail = above ++ below → target ≠ some above) :
    .file trail content mode ∈ itemsOf (some walker) isMarked target [] entries := by
  cases trail with
  | nil =>
      cases found
  | cons name rest =>
      rw [Node.get?_directory_cons] at found
      obtain ⟨child, lookedUp, below⟩ := Option.bind_eq_some_iff.mp found
      obtain ⟨entered, childOpen⟩ := (Walker.open_cons lookedUp _ _).mp isOpen
      refine mem_itemsOf.mpr ⟨_, Entries.mem_of_lookup lookedUp, ?_⟩
      refine file_mem_itemsBelow below entered childOpen ?_
      intro above after parts _
      exact outside (name :: above) after (by rw [parts]; rfl)

/-- What is below the directory of a backup is a copy of something in a tree. -/
structure Copies
    (source : Node)
    (target : Place)
    (before after : Disk) :
    Prop where
  ordered : after.Ordered
  workDir : after.workDir = before.workDir
  outside : ∀ place, ¬ target <+: place → after.kindAt? place = before.kindAt? place
  top : after.kindAt? target = some .directory
  within : ∀ trail kind, trail ≠ [] → after.kindAt? (target ++ trail) = some kind →
    ∃ original, source.kindAt? trail = some original ∧ original.copied = kind

/-- Nothing is in the way of a copy. -/
theorem Copies.clear
    {source : Node}
    {target : Place}
    {before after : Disk}
    (copies : Copies source target before after)
    {trail : List String}
    {kind : Node.Kind}
    (isSource : source.kindAt? trail = some kind) :
    after.root.Clear (target ++ trail) := by
  intro above name below parts seen isSeen
  rcases List.append_eq_append_iff.mp parts with ⟨between, rfl, isTrail⟩ | ⟨between, rfl, isRest⟩
  · by_cases isTop : between = []
    · rw [isTop, List.append_nil] at isSeen
      exact (Option.some.inj (copies.top.symm.trans isSeen)).symm
    · obtain ⟨original, isOriginal, isCopy⟩ := copies.within between _ isTop isSeen
      rw [isTrail] at isSource
      rw [Node.kindAt?_of_append isSource] at isOriginal
      obtain rfl := Option.some.inj isOriginal
      exact isCopy.symm
  · have directory : after.kindAt? above = some .directory := by
      cases between with
      | nil =>
          simpa using copies.top
      | cons first others =>
          exact Node.kindAt?_of_append copies.top
    exact (Option.some.inj (directory.symm.trans isSeen)).symm

/-- A copy stands below the directory of a backup. -/
def Stands
    (source : Node)
    (target : Place)
    (disk : Disk)
    (trail : List String) :
    Prop :=
  ∃ original, source.kindAt? trail = some original ∧
    disk.kindAt? (target ++ trail) = some original.copied

/-- A copy is seen at its place and makes directories above it. -/
theorem kindAt?_put_copy
    {disk : Disk}
    {target : Place}
    {trail : List String}
    (clear : disk.root.Clear (target ++ trail))
    {new : Node}
    (bare : ∀ name rest, new.kindAt? (name :: rest) = none)
    (other : List String) :
    (disk.put (target ++ trail) new).kindAt? (target ++ other) =
      if other = trail then some new.kind
      else if trail <+: other then none
      else if other <+: trail then some .directory
      else disk.kindAt? (target ++ other) := by
  have seen := Node.kindAt?_put clear new (target ++ other)
  simp only [List.prefix_append_right_inj] at seen
  refine seen.trans ?_
  by_cases same : other = trail
  · rw [if_pos same, if_pos (same ▸ List.prefix_rfl), same]
    simp
  · rw [if_neg same]
    by_cases longer : trail <+: other
    · rw [if_pos longer, if_pos longer]
      obtain ⟨rest, rfl⟩ := longer
      cases rest with
      | nil =>
          simp at same
      | cons name others =>
          rw [← List.append_assoc, List.drop_left]
          exact bare name others
    · rw [if_neg longer, if_neg longer]
      rfl

namespace Copies

variable {source : Node} {target : Place} {before after : Disk} {trail : List String}
  {original : Node.Kind} {new : Node}

/-- Nothing outside the directory of the backup changes by a copy. -/
theorem outside_put
    (copies : Copies source target before after)
    (isSource : source.kindAt? trail = some original)
    (new : Node)
    {place : Place}
    (outside : ¬ target <+: place) :
    (after.put (target ++ trail) new).kindAt? place = before.kindAt? place := by
  rw [← copies.outside place outside]
  refine (Node.kindAt?_put (copies.clear isSource) new place).trans ?_
  rw [if_neg fun longer => outside ((List.prefix_append _ _).trans longer)]
  split
  · rename_i shorter
    rcases List.prefix_or_prefix_of_prefix shorter (List.prefix_append target trail) with
      above | below
    · obtain ⟨rest, rfl⟩ := above
      cases rest with
      | nil =>
          exact absurd (by simp) outside
      | cons name others =>
          exact (Node.kindAt?_of_append copies.top).symm
    · exact absurd below outside
  · rfl

theorem put
    (copies : Copies source target before after)
    (isSource : source.kindAt? trail = some original)
    (named : Place.Named (target ++ trail))
    (notTop : trail ≠ [])
    (newOrdered : new.Ordered)
    (isCopy : new.kind = original.copied)
    (bare : ∀ name rest, new.kindAt? (name :: rest) = none)
    (free : original = .directory → after.kindAt? (target ++ trail) = none) :
    Copies source target before (after.put (target ++ trail) new) ∧
      Stands source target (after.put (target ++ trail) new) trail ∧
      ∀ other, Stands source target after other →
        Stands source target (after.put (target ++ trail) new) other := by
  have seen := kindAt?_put_copy (copies.clear isSource) bare
  have own : (after.put (target ++ trail) new).kindAt? (target ++ trail) =
      some original.copied := by
    rw [seen, if_pos rfl, isCopy]
  have top : (after.put (target ++ trail) new).kindAt? target = some .directory := by
    have atTop := seen []
    rw [if_neg notTop.symm, if_neg (by simpa using notTop), if_pos List.nil_prefix] at atTop
    simpa using atTop
  -- in the tree, too, there are directories above the original
  have directory {other : List String} (different : other ≠ trail) (shorter : other <+: trail) :
      source.kindAt? other = some .directory := by
    obtain ⟨rest, rfl⟩ := shorter
    obtain ⟨name, others, rfl⟩ := List.exists_cons_of_ne_nil (by simpa using different)
    exact Node.kindAt?_of_append isSource
  have ordered : (after.put (target ++ trail) new).Ordered := by
    refine ⟨copies.ordered.tree.put newOrdered named, ?_⟩
    refine (Node.kindAt?_put (copies.clear isSource) new []).trans ?_
    rw [if_neg (by simpa using fun _ => notTop), if_pos List.nil_prefix]
  refine ⟨⟨ordered, copies.workDir, fun _ => copies.outside_put isSource new, top, ?_⟩,
    ⟨original, isSource, own⟩, ?_⟩
  · intro other kind notEmpty isKind
    rw [seen] at isKind
    split at isKind
    · rename_i same
      exact ⟨original, same ▸ isSource, isCopy.symm.trans (Option.some.inj isKind)⟩
    · rename_i different
      split at isKind
      · cases isKind
      · split at isKind
        · rename_i shorter
          exact ⟨.directory, directory different shorter, Option.some.inj isKind⟩
        · exact copies.within other kind notEmpty isKind
  · rintro other ⟨otherOriginal, otherSource, stands⟩
    refine ⟨otherOriginal, otherSource, ?_⟩
    rw [seen]
    split
    · rename_i same
      obtain rfl := Option.some.inj ((same ▸ isSource).symm.trans otherSource)
      rw [isCopy]
    · rename_i different
      split
      · -- something stands below the new place, which was free
        rename_i longer
        obtain ⟨rest, rfl⟩ := longer
        obtain ⟨name, others, rfl⟩ := List.exists_cons_of_ne_nil (by simpa using different)
        rw [Node.kindAt?_of_append otherSource] at isSource
        rw [← List.append_assoc] at stands
        have present := Node.kindAt?_of_append stands
        exact absurd ((free (Option.some.inj isSource).symm).symm.trans present) (by simp)
      · split
        · rename_i shorter
          rw [directory different shorter] at otherSource
          rw [← Option.some.inj otherSource]
          rfl
        · exact stands

end Copies

/-- Making an item puts its copy below the directory of the backup. -/
theorem Copies.make
    {source : Node}
    {target : Place}
    {before after : Disk}
    (copies : Copies source target before after)
    {item : BackupItem}
    (isSource : source.kindAt? item.trail = some item.kind)
    (named : Place.Named (target ++ item.trail))
    (notTop : item.trail ≠ []) :
    Copies source target before (make target after item) ∧
      Stands source target (make target after item) item.trail ∧
      ∀ other, Stands source target after other →
        Stands source target (make target after item) other := by
  cases item with
  | file trail content mode =>
      exact copies.put isSource named notTop (.file _ _) rfl (fun _ _ => rfl) (by
        intro isDirectory
        cases isDirectory)
  | directory trail =>
      rw [Backup.make]
      by_cases present : (after.root.get? (target ++ trail)).isSome = true
      · rw [if_pos present]
        obtain ⟨node, found⟩ := Option.isSome_iff_exists.mp present
        obtain ⟨original, isOriginal, isCopy⟩ :=
          copies.within trail _ notTop (Node.kindAt?_of_get? found)
        refine ⟨copies, ⟨original, isOriginal, ?_⟩, fun _ stands => stands⟩
        rw [isCopy]
        exact Node.kindAt?_of_get? found
      · rw [if_neg present]
        refine copies.put isSource named notTop .empty rfl (fun _ _ => rfl) fun _ => ?_
        exact Option.map_eq_none_iff.mpr (Option.not_isSome_iff_eq_none.mp present)

theorem Copies.makeAll
    {source : Node}
    {target : Place}
    {before after : Disk}
    (copies : Copies source target before after)
    {items : List BackupItem}
    (isSource : ∀ item ∈ items, source.kindAt? item.trail = some item.kind)
    (named : ∀ item ∈ items, Place.Named (target ++ item.trail))
    (notTop : ∀ item ∈ items, item.trail ≠ []) :
    Copies source target before (items.foldl (Backup.make target) after) ∧
      (∀ item ∈ items, Stands source target (items.foldl (Backup.make target) after) item.trail) ∧
      ∀ other, Stands source target after other →
        Stands source target (items.foldl (Backup.make target) after) other := by
  induction items generalizing after with
  | nil =>
      exact ⟨copies, List.forall_mem_nil _, fun _ stands => stands⟩
  | cons item rest inductionHypothesis =>
      obtain ⟨itemSource, restSource⟩ := List.forall_mem_cons.mp isSource
      obtain ⟨itemNamed, restNamed⟩ := List.forall_mem_cons.mp named
      obtain ⟨itemNotTop, restNotTop⟩ := List.forall_mem_cons.mp notTop
      obtain ⟨made, own, kept⟩ := copies.make itemSource itemNamed itemNotTop
      obtain ⟨allMade, others, allKept⟩ :=
        inductionHypothesis made restSource restNamed restNotTop
      refine ⟨allMade, List.forall_mem_cons.mpr ⟨allKept _ own, others⟩, ?_⟩
      intro other stands
      exact allKept other (kept other stands)

end Backup

namespace Walker

/-- A directory that is marked stays so as long as nothing is lost. -/
theorem marked_of_kept
    {before after : Disk}
    {root : Place}
    {trail : List String}
    (ordered : before.Ordered)
    (afterOrdered : after.Ordered)
    (kept : ∀ place kind, before.kindAt? place = some kind → after.kindAt? place = some kind)
    (named : Place.Named (root ++ trail))
    (isMarked : marked before root trail = true) :
    marked after root trail = true := by
  have markerNamed : Place.Named (root ++ trail ++ [ignoreMarker]) :=
    List.forall_mem_append.mpr ⟨named, List.forall_mem_singleton.mpr (by decide)⟩
  unfold marked Disk.exists? at isMarked ⊢
  cases found : before.find (Place.path (root ++ trail ++ [ignoreMarker])) with
  | error cause =>
      rw [found] at isMarked
      cases isMarked
  | ok node =>
      obtain ⟨place, leads, isNode⟩ := Disk.exists_place_of_nodeAt found
      have there := Node.kindAt?_of_get? isNode
      obtain ⟨still, isStill, _⟩ := Option.map_eq_some_iff.mp (kept place _ there)
      have isThere : after.root.get? place = some still := isStill
      rw [Disk.find, Disk.targetOf,
        Disk.resolve_of_kept ordered afterOrdered kept markerNamed leads there, Disk.nodeAt, isThere]

end Walker

/--
A backup marks a directory between a root and a file: the way to its own directory goes
through a marker, or a marker that is a link leads to something that it makes.
-/
def Backup.Marks
    (before after : Disk)
    (root : Place)
    (trail : List String) :
    Prop :=
  ∃ above below,
    trail = above ++ below ∧
      above ≠ [] ∧
      Walker.marked before root above = false ∧
      Walker.marked after root above = true

/-- The directory of a backup is in the tree that is copied only where its path says so. -/
def Backup.InSight
    (root target top base : Place) :
    Prop :=
  ∀ rest, base = top ++ rest → target = root ++ rest

/--
What a backup leaves of the tree below a root, whatever it finds there.  The paths of the
root and of the backup lead to the places `top` and `base`.
-/
structure BackedUp
    (walker : Walker)
    (root target top base : Place)
    (before after : Disk) :
    Prop where
  absent : before.kindAt? base = none
  leads : after.targetOf target.path = .ok base
  ordered : after.Ordered
  workDir : after.workDir = before.workDir
  kept : ∀ place kind, before.kindAt? place = some kind → after.kindAt? place = some kind
  /-- Every file of the backup is a copy of a file below the root. -/
  faithful : ∀ trail content mode,
    after.kindAt? (base ++ trail) = some (.file content mode) →
      ∃ original, before.kindAt? (top ++ trail) = some (.file content original)
  /-- Nothing in the backup is a copy of something in the backup. -/
  apart : Backup.InSight root target top base →
    ∀ trail kind, after.kindAt? (base ++ trail) = some kind → ¬ base <+: top ++ trail
  /-- Every file to which the way is open is copied. -/
  complete : ∀ node trail content mode,
    before.root.get? top = some node →
      node.kindAt? trail = some (.file content mode) →
      walker.Open (Walker.marked before root) [] node trail →
      ¬ Backup.Marks before after root trail →
      after.kindAt? (base ++ trail) = some (.file content (Disk.maskedMode mode))

/-- What comes of a backup that succeeds. -/
inductive Backup.Made
    (walker : Walker)
    (root target : Place)
    (before after : Disk) :
    Prop where
  /-- A root that is a link is not copied. -/
  | link
      {top : Place}
      {path : String}
      (leads : before.placeOf root.path = .ok top)
      (isLink : before.kindAt? top = some (.link path))
      (free : before.exists? target.path = false)
      (same : after = before)
  | copied
      {top base : Place}
      (leads : before.placeOf root.path = .ok top)
      (backedUp : BackedUp walker root target top base before after)

namespace Backup

variable {walker : Walker} {isMarked : List String → Bool} {root target top base : Place}
  {disk ready : Disk}

/-- What a backup copies of a directory: the entries under the names it had at the start. -/
def shownUnder
    (names : List String)
    (held : List (String × Node)) :
    List (String × Node) :=
  held.filter fun entry => names.contains entry.1

theorem lookup_shownUnder
    {held : List (String × Node)}
    (names : List String)
    (name : String) :
    (shownUnder names held).lookup name =
      if names.contains name then held.lookup name else none := by
  unfold shownUnder
  induction held with
  | nil =>
      simp
  | cons entry rest inductionHypothesis =>
      rw [List.filter_cons]
      by_cases same : name = entry.1
      · obtain ⟨known, node⟩ := entry
        subst same
        split
        · simp
        · exact inductionHypothesis.trans (by rename_i unnamed; rw [if_neg unnamed])
      · rw [Entries.lookup_cons_of_ne same, ← inductionHypothesis]
        split
        · rw [Entries.lookup_cons_of_ne same]
        · rfl

theorem ordered_shownUnder
    {held : List (String × Node)}
    (ordered : (Node.directory held).Ordered)
    (names : List String) :
    (Node.directory (shownUnder names held)).Ordered := by
  cases ordered with
  | directory sorted named below =>
      exact .directory (sorted.sublist List.filter_sublist)
        (fun entry member => named entry (List.mem_filter.mp member).1)
        (fun entry member => below entry (List.mem_filter.mp member).1)

theorem get?_shownUnder
    {held : List (String × Node)}
    {names : List String}
    {name : String}
    (known : name ∈ names)
    (rest : List String) :
    (Node.directory (shownUnder names held)).get? (name :: rest) =
      (Node.directory held).get? (name :: rest) := by
  rw [Node.get?_directory_cons, Node.get?_directory_cons, lookup_shownUnder,
    if_pos (List.contains_iff_mem.mpr known)]

/-- What is copied from below a root stands below it. -/
theorem get?_of_shownUnder
    {held : List (String × Node)}
    {names trail : List String}
    {node : Node}
    (isHeld : disk.root.get? top = some (.directory held))
    (notTop : trail ≠ [])
    (seen : (Node.directory (shownUnder names held)).get? trail = some node) :
    disk.root.get? (top ++ trail) = some node := by
  obtain ⟨name, rest, rfl⟩ := List.exists_cons_of_ne_nil notTop
  rw [Node.get?_append, isHeld, Option.bind_some]
  by_cases known : name ∈ names
  · exact (get?_shownUnder known rest).symm.trans seen
  · rw [Node.get?_directory_cons, lookup_shownUnder, if_neg (by simpa using known)] at seen
    cases seen

/-- Every item of a directory is a copy of something below it. -/
theorem itemsOf_sound
    {entries : List (String × Node)}
    {above : Option (List String)}
    (ordered : (Node.directory entries).Ordered)
    {item : BackupItem}
    (member : item ∈ itemsOf (some walker) isMarked above [] entries) :
    item.trail ≠ [] ∧ (Node.directory entries).kindAt? item.trail = some item.kind := by
  cases ordered with
  | directory sorted named below =>
      obtain ⟨⟨first, child⟩, isEntry, inside⟩ := mem_itemsOf.mp member
      obtain ⟨rest, isTrail, isKind⟩ := itemsBelow_sound (below _ isEntry) inside
      rw [isTrail, List.nil_append, List.singleton_append, Node.kindAt?_directory_cons,
        sorted.lookup_of_mem isEntry]
      exact ⟨by simp, isKind⟩

theorem named_append
    {node : Node}
    (ordered : node.Ordered)
    (named : base.Named)
    {trail : List String}
    {kind : Node.Kind}
    (found : node.kindAt? trail = some kind) :
    Place.Named (base ++ trail) := by
  obtain ⟨child, isChild, _⟩ := Option.map_eq_some_iff.mp found
  have trailNamed := (ordered.get? isChild).1
  intro name inside
  exact (List.mem_append.mp inside).elim (named name) (trailNamed name)

/-- An item below a name comes from the entry with that name. -/
theorem mem_itemsBelow_of_prefix
    {entries : List (String × Node)}
    {avoided : Option (List String)}
    {start others : List String}
    {next : String}
    {item : BackupItem}
    (ordered : (Node.directory entries).Ordered)
    (isItem : item ∈ itemsOf (some walker) isMarked avoided start entries)
    (within : start ++ next :: others <+: item.trail) :
    ∃ child,
      entries.lookup next = some child ∧
        child.Ordered ∧
        item ∈ itemsBelow (some walker) isMarked avoided next (start ++ [next]) child := by
  cases ordered with
  | directory sorted named below =>
      obtain ⟨⟨first, child⟩, member, inEntry⟩ := mem_itemsOf.mp isItem
      obtain ⟨rest, isTrail, _⟩ := itemsBelow_sound (below _ member) inEntry
      rw [isTrail, List.append_assoc, List.prefix_append_right_inj, List.singleton_append,
        List.cons_prefix_cons] at within
      obtain ⟨rfl, _⟩ := within
      exact ⟨child, sorted.lookup_of_mem member, below _ member, inEntry⟩

/-- No item is in the directory that is left out. -/
theorem itemsOf_outside
    {entries : List (String × Node)}
    {others : List String}
    {next : String}
    {item : BackupItem}
    (ordered : (Node.directory entries).Ordered)
    (start : List String)
    (isAvoided : (Node.directory entries).kindAt? (next :: others) = some .directory)
    (isItem : item ∈ itemsOf (some walker) isMarked (some (start ++ next :: others)) start entries) :
    ¬ start ++ next :: others <+: item.trail := by
  intro within
  induction others generalizing entries start next with
  | nil =>
      obtain ⟨child, lookedUp, _, inEntry⟩ := mem_itemsBelow_of_prefix ordered isItem within
      rw [Node.kindAt?_directory_cons, lookedUp] at isAvoided
      obtain ⟨inner, isDirectory⟩ := Node.get?_of_kindAt?_directory isAvoided
      obtain rfl : child = .directory inner := by
        simpa using isDirectory
      rw [itemsBelow, if_pos (by simp)] at inEntry
      cases inEntry
  | cons second more inductionHypothesis =>
      obtain ⟨child, lookedUp, childOrdered, inEntry⟩ :=
        mem_itemsBelow_of_prefix ordered isItem within
      rw [Node.kindAt?_directory_cons, lookedUp] at isAvoided
      cases child with
      | file | link =>
          cases isAvoided
      | directory inner =>
          rw [itemsBelow] at inEntry
          split at inEntry
          · cases inEntry
          · rw [List.append_cons] at within
            rcases List.mem_cons.mp inEntry with rfl | inside
            · exact absurd within.length_le (by simp [BackupItem.trail])
            · rw [List.append_cons] at inside
              exact inductionHypothesis childOrdered _ isAvoided inside within

/-- A directory that was only just made holds copies of nothing. -/
theorem copies_of_opened
    (opened : Disk.Opened disk target base ready)
    (source : Node) :
    Copies source base ready ready where
  ordered := opened.ordered
  workDir := rfl
  outside _ _ := rfl
  top := by
    rw [opened.seen, if_pos List.prefix_rfl]
    simp [Node.kind]
  within := by
    intro trail kind notTop isKind
    obtain ⟨name, rest, rfl⟩ := List.exists_cons_of_ne_nil notTop
    rw [opened.seen, if_pos (List.prefix_append _ _), List.drop_left] at isKind
    cases isKind

/-- Copying leaves a copy of every item, and copies of what the items are made of only. -/
theorem copies_copy
    {held : List (String × Node)}
    (opened : Disk.Opened disk target base ready)
    (leads : ready.placeOf root.path = .ok top)
    (isHeld : ready.root.get? top = some (.directory held))
    (names : List String)
    (source : Node) :
    let items :=
      itemsOf (some walker) (Walker.marked ready root) (trailBelow? root target) []
        (shownUnder names held)
    let after := (copy (some walker) root target names ready).2
    (∀ item ∈ items, source.kindAt? item.trail = some item.kind) →
      Copies source base ready after ∧
        ∀ item ∈ items, after.kindAt? (base ++ item.trail) = some item.kind.copied := by
  intro items after isSource
  have copied : after = items.foldl (make base) ready := by
    unfold after copy Disk.seat
    rw [leads, opened.leads]
    dsimp only
    rw [isHeld]
    rfl
  have nothing := copies_of_opened opened source
  have named : base.Named := opened.ordered.named nothing.top
  have ordered := ordered_shownUnder (opened.ordered.tree.get? isHeld).2 names
  obtain ⟨made, stands, _⟩ := nothing.makeAll isSource
    (fun _ member => named_append ordered named (itemsOf_sound ordered member).2)
    (fun _ member => (itemsOf_sound ordered member).1)
  rw [copied]
  refine ⟨made, ?_⟩
  intro item member
  obtain ⟨original, isOriginal, isCopy⟩ := stands item member
  obtain rfl := Option.some.inj ((isSource item member).symm.trans isOriginal)
  exact isCopy

/-- Where the new directory is on the way to something in a tree, it is a directory of the tree. -/
theorem directory_of_shownUnder
    {held : List (String × Node)}
    {names others below : List String}
    {next : String}
    {kind : Node.Kind}
    (opened : Disk.Opened disk target base ready)
    (isHeld : ready.root.get? top = some (.directory held))
    (isBase : top ++ next :: others = base)
    (seen : (Node.directory (shownUnder names held)).kindAt? (next :: others ++ below) =
      some kind) :
    (Node.directory (shownUnder names held)).kindAt? (next :: others) = some .directory := by
  obtain ⟨node, isNode, _⟩ := Option.map_eq_some_iff.mp seen
  rw [Node.get?_append] at isNode
  obtain ⟨inner, isInner, _⟩ := Option.bind_eq_some_iff.mp isNode
  have isThere := get?_of_shownUnder isHeld (by simp) isInner
  have made : ready.kindAt? base = some .directory := (copies_of_opened opened inner).top
  rw [isBase] at isThere
  rw [Node.kindAt?_of_get? isInner, ← made]
  exact (Node.kindAt?_of_get? isThere).symm

/-- What is copied is not in the directory of the backup, where its path says where it is. -/
theorem not_prefix_of_copied
    {held : List (String × Node)}
    {names trail : List String}
    {kind : Node.Kind}
    (opened : Disk.Opened disk target base ready)
    (leads : ready.placeOf root.path = .ok top)
    (isTop : disk.kindAt? top = some .directory)
    (isHeld : ready.root.get? top = some (.directory held))
    (inSight : InSight root target top base)
    (found : (copy (some walker) root target names ready).2.kindAt? (base ++ trail) = some kind) :
    ¬ base <+: top ++ trail := by
  intro within
  have notAbove := Disk.not_prefix_of_absent opened.absent isTop
  obtain ⟨rest, isBase⟩ := (List.prefix_or_prefix_of_prefix within
    (List.prefix_append top trail)).resolve_left notAbove
  cases rest with
  | nil =>
      rw [List.append_nil] at isBase
      exact notAbove (isBase ▸ List.prefix_rfl)
  | cons next others =>
      rw [← isBase, List.prefix_append_right_inj] at within
      have isAvoided : trailBelow? root target = some (next :: others) := by
        rw [inSight _ isBase.symm, trailBelow?]
        simp
      -- the copies are copies of what is left of the tree without that directory
      let shown := Node.directory (shownUnder names held)
      have ordered : shown.Ordered := ordered_shownUnder (opened.ordered.tree.get? isHeld).2 names
      obtain ⟨made, _⟩ :=
        copies_copy opened leads isHeld names (shown.remove (next :: others)) fun item isItem => by
          have sound := (itemsOf_sound ordered isItem).2
          rw [Node.kindAt?_remove shown (by simp), if_neg, sound]
          rintro ⟨below, parts⟩
          rw [← parts] at sound
          have isDirectory := directory_of_shownUnder opened isHeld isBase sound
          rw [isAvoided] at isItem
          exact itemsOf_outside ordered [] isDirectory isItem ⟨below, parts⟩
      obtain ⟨original, isOriginal, _⟩ := made.within trail kind (by
        rintro rfl
        simp at within) found
      rw [Node.kindAt?_remove shown (by simp), if_pos within] at isOriginal
      cases isOriginal

/-- Copying takes nothing away. -/
theorem Copies.kept
    {source : Node}
    {after : Disk}
    (opened : Disk.Opened disk target base ready)
    (copies : Copies source base ready after)
    {place : Place}
    {kind : Node.Kind}
    (found : ready.kindAt? place = some kind) :
    after.kindAt? place = some kind := by
  by_cases within : base <+: place
  · obtain ⟨rest, rfl⟩ := within
    rw [opened.seen, if_pos (List.prefix_append _ _), List.drop_left] at found
    cases rest with
    | nil =>
        rw [List.append_nil, copies.top]
        exact found
    | cons name others =>
        cases found
  · rw [copies.outside place within, found]

/-- The way to a file is open to a backup that does not mark it. -/
theorem open_of_opened
    {entries shown : List (String × Node)}
    {after : Disk}
    (rootNamed : root.Named)
    (opened : Disk.Opened disk target base ready)
    (afterOrdered : after.Ordered)
    (kept : ∀ place kind, ready.kindAt? place = some kind → after.kindAt? place = some kind)
    (isRoot : disk.root.get? top = some (.directory entries))
    (isShown : ∀ trail node, trail ≠ [] → (Node.directory shown).get? trail = some node →
      ready.root.get? (top ++ trail) = some node)
    {trail : List String}
    {content : Content}
    {mode : Nat}
    (found : disk.kindAt? (top ++ trail) = some (.file content mode))
    (isOpen : walker.Open (Walker.marked disk root) [] (.directory entries) trail)
    (unmarked : ¬ Marks disk after root trail) :
    walker.Open (Walker.marked ready root) [] (.directory shown) trail := by
  intro above name below inner parts seen
  have isInner : ready.root.get? (top ++ (above ++ [name])) = some (.directory inner) :=
    isShown _ _ (by simp) seen
  have isDirectory : disk.kindAt? (top ++ (above ++ [name])) = some .directory := by
    cases below with
    | nil =>
        rw [← parts] at isInner
        have kept := opened.kept _ _ found
        exact absurd ((Node.kindAt?_of_get? isInner).symm.trans kept) (by simp [Node.kind])
    | cons next more =>
        rw [parts, show top ++ (above ++ name :: next :: more) =
          (top ++ (above ++ [name])) ++ next :: more by simp] at found
        exact Node.kindAt?_of_append found
  obtain ⟨outer, isOuter⟩ := Node.get?_of_kindAt?_directory isDirectory
  rw [Node.get?_append, isRoot] at isOuter
  have shows := isOpen above name below outer parts isOuter
  rw [List.nil_append] at shows ⊢
  have notMarked : Walker.marked disk root (above ++ [name]) = false := by
    unfold Walker.skips at shows
    simp only [Bool.or_eq_false_iff] at shows
    exact shows.1.2
  have named : Place.Named (root ++ (above ++ [name])) := by
    have inTree := opened.ordered.named (opened.kept _ _ isDirectory)
    exact List.forall_mem_append.mpr
      ⟨rootNamed, fun other member => inTree other (List.mem_append_right _ member)⟩
  have stillNotMarked : Walker.marked ready root (above ++ [name]) = false := by
    by_contra isMarked
    refine unmarked ⟨above ++ [name], below, by simp [parts], by simp, notMarked, ?_⟩
    exact Walker.marked_of_kept opened.ordered afterOrdered kept named
      (Bool.not_eq_false _ ▸ isMarked)
  unfold Walker.skips at shows ⊢
  rw [stillNotMarked]
  rwa [notMarked] at shows

/-- The way to a file does not lead through a directory that was not there. -/
theorem trailBelow?_ne
    {trail above below : List String}
    {content : Content}
    {mode : Nat}
    (ordered : disk.Ordered)
    (named : target.Named)
    (missing : disk.exists? target.path = false)
    (opens : disk.targetOf root.path = .ok top)
    (found : disk.kindAt? (top ++ trail) = some (.file content mode))
    (parts : trail = above ++ below) :
    trailBelow? root target ≠ some above := by
  intro isTarget
  unfold trailBelow? at isTarget
  split at isTarget
  · rename_i isAbove
    obtain ⟨rest, rfl⟩ := List.isPrefixOf_iff_prefix.mp isAbove
    rw [List.drop_left, Option.some.injEq] at isTarget
    obtain rfl := isTarget
    rw [parts, ← List.append_assoc] at found
    -- what leads to the directory leads to something
    have leads : ∃ kind, disk.targetOf (Place.path (root ++ rest)) = .ok (top ++ rest) ∧
        disk.kindAt? (top ++ rest) = some kind := by
      cases below with
      | cons name others =>
          have held : disk.kindAt? (top ++ rest) = some .directory := Node.kindAt?_of_append found
          exact ⟨_, Disk.targetOf_append ordered named opens held, held⟩
      | nil =>
          rw [List.append_nil] at found
          refine ⟨_, ?_, found⟩
          by_cases isTop : rest = []
          · subst isTop
            rwa [List.append_nil, List.append_nil]
          · exact Disk.targetOf_of_placeOf ordered named
              (Disk.placeOf_append ordered named isTop opens found) (by simp [found])
    obtain ⟨kind, leads, seen⟩ := leads
    obtain ⟨node, isNode, _⟩ := Option.map_eq_some_iff.mp seen
    have isThere : disk.root.get? (top ++ rest) = some node := isNode
    rw [Disk.exists?, Disk.find, leads, Disk.nodeAt, isThere] at missing
    cases missing
  · cases isTarget

/-- A file below the root of a backup is among what is copied. -/
theorem get?_shownUnder_of_opened
    {entries held : List (String × Node)}
    (opened : Disk.Opened disk target base ready)
    (isRoot : disk.root.get? top = some (.directory entries))
    (isHeld : ready.root.get? top = some (.directory held))
    {trail : List String}
    {content : Content}
    {mode : Nat}
    (isFile : (Node.directory entries).kindAt? trail = some (.file content mode)) :
    (Node.directory (shownUnder (entries.map Prod.fst) held)).get? trail =
      some (.file content mode) := by
  have found : disk.kindAt? (top ++ trail) = some (.file content mode) := by
    unfold Disk.kindAt?
    rw [Node.kindAt?_append, isRoot]
    exact isFile
  have kept := opened.kept _ _ found
  unfold Disk.kindAt? at kept
  rw [Node.kindAt?_append, isHeld, Option.bind_some] at kept
  cases trail with
  | nil =>
      cases isFile
  | cons name rest =>
      obtain ⟨child, known, _⟩ := Option.bind_eq_some_iff.mp
        ((Node.kindAt?_directory_cons entries name rest).symm.trans isFile)
      rw [get?_shownUnder (List.mem_map_of_mem (Entries.mem_of_lookup known))]
      exact Node.get?_of_kindAt?_file kept

/-- Copying takes the files that were below the root before the directory was made. -/
theorem copy_backedUp
    {entries : List (String × Node)}
    (ordered : disk.Ordered)
    (rootNamed : root.Named)
    (named : target.Named)
    (missing : disk.exists? target.path = false)
    (opened : Disk.Opened disk target base ready)
    (leads : disk.placeOf root.path = .ok top)
    (isRoot : disk.root.get? top = some (.directory entries)) :
    BackedUp walker root target top base disk
      (copy (some walker) root target (entries.map Prod.fst) ready).2 := by
  have isTop : disk.kindAt? top = some .directory := Node.kindAt?_of_get? isRoot
  obtain ⟨held, isHeld⟩ := Node.get?_of_kindAt?_directory (opened.kept top _ isTop)
  have stillLeads : ready.placeOf root.path = .ok top :=
    Disk.resolve_of_kept ordered opened.ordered opened.kept rootNamed leads isTop
  have heldOrdered :=
    ordered_shownUnder (opened.ordered.tree.get? isHeld).2 (entries.map Prod.fst)
  obtain ⟨made, stands⟩ := copies_copy opened stillLeads isHeld (entries.map Prod.fst) _
    fun _ isItem => (itemsOf_sound heldOrdered isItem).2
  have keeps (place : Place) (kind : Node.Kind) (found : ready.kindAt? place = some kind) :=
    made.kept opened found
  have baseLeads : ready.targetOf target.path = .ok base :=
    Disk.targetOf_of_placeOf opened.ordered named opened.leads
      (by simp [(copies_of_opened opened (.directory entries)).top])
  exact
    { absent := opened.absent
      leads := Disk.resolve_of_kept opened.ordered made.ordered keeps named baseLeads
        (copies_of_opened opened (.directory entries)).top
      ordered := made.ordered
      workDir := made.workDir.trans opened.workDir
      kept := fun place kind found => keeps place kind (opened.kept place kind found)
      faithful := by
        intro trail content mode found
        by_cases isBase : trail = []
        · rw [isBase, List.append_nil, made.top] at found
          cases found
        · obtain ⟨original, isOriginal, isCopy⟩ := made.within trail _ isBase found
          cases original with
          | directory | link path =>
              cases isCopy
          | file held heldMode =>
              obtain ⟨rfl, _⟩ := Node.Kind.file.inj isCopy
              have isNode := get?_of_shownUnder isHeld isBase (Node.get?_of_kindAt?_file isOriginal)
              exact ⟨heldMode, opened.file (Node.kindAt?_of_get? isNode)⟩
      apart := fun inSight _ _ => not_prefix_of_copied opened stillLeads isTop isHeld inSight
      complete := by
        intro node trail content mode isNode isFile isOpen unmarked
        obtain rfl := Option.some.inj (isRoot.symm.trans isNode)
        have found : disk.kindAt? (top ++ trail) = some (.file content mode) := by
          unfold Disk.kindAt?
          rw [Node.kindAt?_append, isRoot]
          exact isFile
        have shownOpen :
            walker.Open (Walker.marked ready root) []
              (.directory (shownUnder (entries.map Prod.fst) held)) trail :=
          open_of_opened rootNamed opened made.ordered keeps isRoot
            (fun _ _ => get?_of_shownUnder isHeld) found isOpen unmarked
        have rootOpens : disk.targetOf root.path = .ok top :=
          Disk.targetOf_of_placeOf ordered rootNamed leads (by simp [isTop])
        exact stands _ (file_mem_itemsOf (get?_shownUnder_of_opened opened isRoot isHeld isFile)
          shownOpen fun _ _ => trailBelow?_ne ordered named missing rootOpens found) }

/-- Where the root is a file, its copy is all there is to a backup. -/
theorem write_backedUp
    {content : Content}
    {mode : Nat}
    {after : Disk}
    (ordered : disk.Ordered)
    (named : target.Named)
    (missing : disk.exists? target.path = false)
    (isRoot : disk.root.get? top = some (.file content mode))
    (written : disk.write target.path content mode = .ok after) :
    ∃ base, BackedUp walker root target top base disk after := by
  obtain ⟨base, absent, leads, changed⟩ :=
    Disk.exists_changed_of_write ordered named missing written
  have isTop : disk.kindAt? top = some (.file content mode) := Node.kindAt?_of_get? isRoot
  -- nothing is behind a file
  have onlyBase {trail : List String} {kind : Node.Kind}
      (found : after.kindAt? (base ++ trail) = some kind) : trail = [] := by
    cases trail with
    | nil =>
        rfl
    | cons name rest =>
        exact absurd (changed.own.symm.trans (Node.kindAt?_of_append found)) (by simp)
  exact
    ⟨base,
      { absent := absent
        leads := leads
        ordered := changed.ordered
        workDir := changed.workDir
        kept := by
          intro place kind found
          rw [changed.other, found]
          rintro rfl
          exact absurd (absent.symm.trans found) (by simp)
        faithful := by
          intro trail copied copiedMode found
          obtain rfl := onlyBase found
          rw [List.append_nil, changed.own] at found
          obtain ⟨rfl, _⟩ := Node.Kind.file.inj (Option.some.inj found)
          exact ⟨mode, by rw [List.append_nil]; exact isTop⟩
        apart := by
          intro _ trail kind found within
          obtain rfl := onlyBase found
          rw [List.append_nil] at within
          exact Disk.not_prefix_of_absent absent isTop within
        complete := by
          intro node trail copied copiedMode isNode isFile _ _
          obtain rfl := Option.some.inj (isRoot.symm.trans isNode)
          cases trail with
          | nil =>
              obtain ⟨rfl, rfl⟩ := Node.Kind.file.inj (Option.some.inj isFile)
              rw [List.append_nil, changed.own]
          | cons first rest =>
              cases isFile }⟩

/-- A backup takes nothing away. -/
theorem Made.keeps
    {after : Disk}
    (ordered : disk.Ordered)
    (made : Made walker root target disk after) :
    after.Ordered ∧
      after.workDir = disk.workDir ∧
      ∀ place kind, disk.kindAt? place = some kind → after.kindAt? place = some kind := by
  cases made with
  | link leads isLink free same =>
      subst same
      exact ⟨ordered, rfl, fun _ _ => id⟩
  | copied leads backedUp =>
      exact ⟨backedUp.ordered, backedUp.workDir, backedUp.kept⟩

/-- A backup that succeeds leaves the disk with a copy of the tree below the root. -/
theorem made_of_backup
    {count : Nat}
    {after : Disk}
    (ordered : disk.Ordered)
    (rootNamed : root.Named)
    (named : target.Named)
    (backed : disk.backup root target (some walker) = (after, .ok count)) :
    Made walker root target disk after := by
  unfold Disk.backup at backed
  split at backed
  · cases backed
  · rename_i present
    have missing : disk.exists? target.path = false := by
      simpa using present
    split at backed
    · cases backed
    · rename_i content mode isFile
      obtain ⟨top, leads, isRoot⟩ := Disk.exists_place_of_nodeAt isFile
      split at backed
      · rename_i written stored
        obtain ⟨rfl, _⟩ := Prod.mk.inj backed
        obtain ⟨base, backedUp⟩ := write_backedUp ordered named missing isRoot stored
        exact .copied leads backedUp
      · cases backed
    · rename_i path isLink
      obtain ⟨rfl, _⟩ := Prod.mk.inj backed
      obtain ⟨top, leads, isRoot⟩ := Disk.exists_place_of_nodeAt isLink
      exact .link leads (Node.kindAt?_of_get? isRoot) missing rfl
    · rename_i entries isDirectory
      obtain ⟨top, leads, isRoot⟩ := Disk.exists_place_of_nodeAt isDirectory
      split at backed
      · cases backed
      · rename_i ready opens
        obtain ⟨rfl, _⟩ := Prod.mk.inj backed
        obtain ⟨base, opened⟩ := Disk.opened_of_makeDirectories ordered named missing opens
        exact .copied leads (copy_backedUp ordered rootNamed named missing opened leads isRoot)

end Backup

end ScriptUplift
