import Mathlib.Tactic.Common
import ScriptUplift.Disk.Basic
import ScriptUplift.Proofs.SortedEntries

namespace ScriptUplift

/-!
# What stands where on a disk

A tree is read through `kindAt?`: whether a file, a link or a directory stands at a
place, and what the file or the link holds.  Putting and removing a node changes the
answer at its own place and below, and nowhere else.  A tree in order is determined by
these answers; one that is well formed holds no links.
-/

/-- A text that can name an entry of a directory. -/
def Path.IsName
    (name : String) :
    Prop :=
  name ≠ "" ∧ name ≠ "." ∧ name ≠ ".." ∧ '/' ∉ name.toList

instance
    (name : String) :
    Decidable (Path.IsName name) :=
  inferInstanceAs (Decidable (_ ∧ _ ∧ _ ∧ _))

/-- Every name of a place can name an entry. -/
def Place.Named
    (place : Place) :
    Prop :=
  ∀ name ∈ place, Path.IsName name

namespace Node

/-- What a node is, apart from what lies below it. -/
inductive Kind
  | file (content : Content) (mode : Nat)
  | link (target : String)
  | directory
  deriving Repr, DecidableEq

/-- The kind of a node. -/
def kind : Node → Kind
  | .file content mode => .file content mode
  | .link target => .link target
  | .directory _ => .directory

/-- What stands at a place below a node. -/
def kindAt?
    (node : Node)
    (place : Place) :
    Option Kind :=
  (node.get? place).map kind

@[simp] theorem get?_nil
    (node : Node) :
    node.get? [] = some node := by
  cases node <;> rfl

@[simp] theorem kindAt?_nil
    (node : Node) :
    node.kindAt? [] = some node.kind := by
  unfold kindAt?
  rw [get?_nil]
  rfl

@[simp] theorem kindAt?_file_cons
    (content : Content)
    (mode : Nat)
    (name : String)
    (rest : Place) :
    (Node.file content mode).kindAt? (name :: rest) = none :=
  rfl

@[simp] theorem kindAt?_link_cons
    (target name : String)
    (rest : Place) :
    (Node.link target).kindAt? (name :: rest) = none :=
  rfl

theorem get?_directory_cons
    (entries : List (String × Node))
    (name : String)
    (rest : Place) :
    (Node.directory entries).get? (name :: rest) =
      (entries.lookup name).bind fun child => child.get? rest := by
  rw [get?]
  cases entries.lookup name <;> rfl

theorem kindAt?_directory_cons
    (entries : List (String × Node))
    (name : String)
    (rest : Place) :
    (Node.directory entries).kindAt? (name :: rest) =
      (entries.lookup name).bind fun child => child.kindAt? rest := by
  unfold kindAt?
  rw [get?_directory_cons]
  cases entries.lookup name <;> rfl

theorem get?_append
    (node : Node)
    (above below : Place) :
    node.get? (above ++ below) = (node.get? above).bind fun child => child.get? below := by
  induction above generalizing node with
  | nil =>
      cases node <;> rfl
  | cons name rest inductionHypothesis =>
      cases node with
      | file content mode =>
          rfl
      | link target =>
          rfl
      | directory entries =>
          rw [List.cons_append, get?_directory_cons, get?_directory_cons]
          cases entries.lookup name with
          | none =>
              rfl
          | some child =>
              exact inductionHypothesis child

theorem kindAt?_append
    (node : Node)
    (above below : Place) :
    node.kindAt? (above ++ below) = (node.get? above).bind fun child => child.kindAt? below := by
  unfold kindAt?
  rw [get?_append]
  cases node.get? above <;> rfl

/-- Something stands only below directories. -/
theorem kindAt?_of_append
    {node : Node}
    {above : Place}
    {name : String}
    {below : Place}
    {kind : Kind}
    (found : node.kindAt? (above ++ name :: below) = some kind) :
    node.kindAt? above = some .directory := by
  rw [kindAt?_append] at found
  obtain ⟨child, isChild, seen⟩ := Option.bind_eq_some_iff.mp found
  cases child with
  | file content mode =>
      cases seen
  | link target =>
      cases seen
  | directory entries =>
      unfold kindAt?
      rw [isChild]
      rfl

theorem kindAt?_of_get?
    {node child : Node}
    {place : Place}
    (found : node.get? place = some child) :
    node.kindAt? place = some child.kind := by
  unfold kindAt?
  rw [found]
  rfl

theorem get?_of_kindAt?_file
    {node : Node}
    {place : Place}
    {content : Content}
    {mode : Nat}
    (found : node.kindAt? place = some (.file content mode)) :
    node.get? place = some (.file content mode) := by
  obtain ⟨child, isChild, same⟩ := Option.map_eq_some_iff.mp found
  cases child with
  | file held heldMode =>
      obtain ⟨rfl, rfl⟩ := Kind.file.inj same
      exact isChild
  | link target =>
      cases same
  | directory entries =>
      cases same

theorem get?_of_kindAt?_link
    {node : Node}
    {place : Place}
    {target : String}
    (found : node.kindAt? place = some (.link target)) :
    node.get? place = some (.link target) := by
  obtain ⟨child, isChild, same⟩ := Option.map_eq_some_iff.mp found
  cases child with
  | file held heldMode =>
      cases same
  | link held =>
      obtain rfl := Kind.link.inj same
      exact isChild
  | directory entries =>
      cases same

theorem get?_of_kindAt?_directory
    {node : Node}
    {place : Place}
    (found : node.kindAt? place = some .directory) :
    ∃ entries, node.get? place = some (.directory entries) := by
  obtain ⟨child, isChild, same⟩ := Option.map_eq_some_iff.mp found
  cases child with
  | file held heldMode =>
      cases same
  | link target =>
      cases same
  | directory entries =>
      exact ⟨entries, isChild⟩

theorem get?_of_kindAt?_none
    {node : Node}
    {place : Place}
    (absent : node.kindAt? place = none) :
    node.get? place = none :=
  Option.map_eq_none_iff.mp absent

/-- Nothing but directories stands on the way to a place. -/
def Clear
    (node : Node)
    (place : Place) :
    Prop :=
  ∀ above name below, place = above ++ name :: below →
    ∀ kind, node.kindAt? above = some kind → kind = .directory

theorem Clear.child
    {entries : List (String × Node)}
    {name : String}
    {rest : Place}
    (clear : Clear (.directory entries) (name :: rest)) :
    Clear ((entries.lookup name).getD (.directory [])) rest := by
  intro above next below parts seen isSeen
  have own := clear (name :: above) next below (by rw [parts]; rfl) seen
  rw [kindAt?_directory_cons] at own
  cases found : entries.lookup name with
  | none =>
      rw [found] at isSeen
      cases above with
      | nil =>
          exact (Option.some.inj isSeen).symm
      | cons first others =>
          cases isSeen
  | some child =>
      rw [found] at own isSeen
      exact own isSeen

theorem clear_of_parent
    {node : Node}
    {parent : Place}
    (held : node.kindAt? parent = some .directory)
    (name : String) :
    node.Clear (parent ++ [name]) := by
  intro above next below parts seen isSeen
  rcases List.append_eq_append_iff.mp parts with ⟨between, isAbove, isRest⟩ | ⟨between, isParent, isRest⟩
  · -- the parent itself is the only place on the way that is not above it
    cases between with
    | nil =>
        rw [isAbove, List.append_nil, held] at isSeen
        exact (Option.some.inj isSeen).symm
    | cons first others =>
        simp at isRest
  · cases between with
    | nil =>
        rw [List.append_nil] at isParent
        rw [← isParent, held] at isSeen
        exact (Option.some.inj isSeen).symm
    | cons first others =>
        rw [isParent] at held
        rw [kindAt?_of_append held] at isSeen
        exact (Option.some.inj isSeen).symm

/-- What stands where after a node was put somewhere; directories on the way are made. -/
theorem kindAt?_put
    {node : Node}
    {place : Place}
    (clear : node.Clear place)
    (new : Node)
    (other : Place) :
    (put new node place).kindAt? other =
      if place <+: other then new.kindAt? (other.drop place.length)
      else if other <+: place then some .directory
      else node.kindAt? other := by
  induction place generalizing node other with
  | nil =>
      cases node <;> simp [put]
  | cons name rest inductionHypothesis =>
      cases node with
      | file content mode =>
          cases clear [] name rest rfl _ (kindAt?_nil _)
      | link target =>
          cases clear [] name rest rfl _ (kindAt?_nil _)
      | directory entries =>
          cases other with
          | nil =>
              simp [put, kind]
          | cons first others =>
              rw [put, kindAt?_directory_cons, kindAt?_directory_cons, Entries.lookup_insert]
              by_cases same : first = name
              · subst same
                rw [if_pos rfl, Option.bind_some, inductionHypothesis clear.child]
                simp only [List.cons_prefix_cons, true_and, List.length_cons, List.drop_succ_cons]
                split
                · rfl
                · split
                  · rfl
                  · rename_i notBelow notAbove
                    cases entries.lookup first with
                    | some child =>
                        rfl
                    | none =>
                        cases others with
                        | nil =>
                            exact absurd List.nil_prefix notAbove
                        | cons second others =>
                            rfl
              · rw [if_neg same]
                simp [List.cons_prefix_cons, same, Ne.symm same]

/-- A file that is put where no directory stands changes the answer at its own place only. -/
theorem kindAt?_put_file
    {node : Node}
    {parent : Place}
    {name : String}
    (held : node.kindAt? parent = some .directory)
    (free : node.kindAt? (parent ++ [name]) ≠ some .directory)
    (content : Content)
    (mode : Nat)
    (other : Place) :
    (put (.file content mode) node (parent ++ [name])).kindAt? other =
      if other = parent ++ [name] then some (.file content mode) else node.kindAt? other := by
  rw [kindAt?_put (clear_of_parent held name)]
  by_cases same : other = parent ++ [name]
  · subst same
    simp [kind]
  · rw [if_neg same]
    split
    · rename_i below
      obtain ⟨rest, rfl⟩ := below
      cases rest with
      | nil =>
          simp at same
      | cons first others =>
          rw [List.drop_left, kindAt?_file_cons]
          symm
          by_contra present
          obtain ⟨kind, found⟩ := Option.ne_none_iff_exists'.mp present
          exact free (kindAt?_of_append found)
    · split
      · rename_i above
        obtain ⟨rest, parts⟩ := above
        rcases List.eq_nil_or_concat rest with rfl | ⟨front, last, rfl⟩
        · rw [List.append_nil] at parts
          exact absurd parts same
        · -- what is above the place is the parent or above it
          rw [List.concat_eq_append, ← List.append_assoc] at parts
          obtain ⟨isParent, _⟩ := List.append_inj' parts rfl
          cases front with
          | nil =>
              rw [List.append_nil] at isParent
              rw [isParent, held]
          | cons first others =>
              rw [← isParent] at held
              rw [kindAt?_of_append held]
      · rfl

/-- Removing a node takes it away with all that lies below it. -/
theorem kindAt?_remove
    (node : Node)
    {place : Place}
    (notRoot : place ≠ [])
    (other : Place) :
    (node.remove place).kindAt? other =
      if place <+: other then none else node.kindAt? other := by
  induction place generalizing node other with
  | nil =>
      exact absurd rfl notRoot
  | cons name rest inductionHypothesis =>
      cases node with
      | file content mode =>
          cases other <;> simp [remove]
      | link target =>
          cases other <;> simp [remove]
      | directory entries =>
          cases rest with
          | nil =>
              cases other with
              | nil =>
                  simp [remove, kind]
              | cons first others =>
                  rw [remove, kindAt?_directory_cons, kindAt?_directory_cons, Entries.lookup_erase]
                  by_cases same : first = name
                  · simp [same]
                  · simp [List.cons_prefix_cons, same, Ne.symm same]
          | cons second below =>
              cases other with
              | nil =>
                  cases found : entries.lookup name <;> simp [remove, found, kind]
              | cons first others =>
                  rw [remove.eq_5 _ _ _ (by simp), kindAt?_directory_cons]
                  cases found : entries.lookup name with
                  | none =>
                      by_cases same : first = name
                      · subst same
                        simp [kindAt?_directory_cons, found]
                      · simp [kindAt?_directory_cons, List.cons_prefix_cons, Ne.symm same]
                  | some child =>
                      by_cases same : first = name
                      · subst same
                        simp [kindAt?_directory_cons, Entries.lookup_insert, found,
                          inductionHypothesis child (by simp), List.cons_prefix_cons]
                      · simp [kindAt?_directory_cons, Entries.lookup_insert,
                          List.cons_prefix_cons, same, Ne.symm same]

/-- Every directory holds named entries in the order of their names. -/
inductive Ordered : Node → Prop
  | file (content : Content) (mode : Nat) :
      Ordered (.file content mode)
  | link (target : String) :
      Ordered (.link target)
  | directory {entries : List (String × Node)}
      (sorted : Entries.Sorted entries)
      (named : ∀ entry ∈ entries, Path.IsName entry.1)
      (below : ∀ entry ∈ entries, Ordered entry.2) :
      Ordered (.directory entries)

namespace Ordered

theorem empty :
    Ordered (.directory []) :=
  .directory List.Pairwise.nil (List.forall_mem_nil _) (List.forall_mem_nil _)

theorem insert
    {entries : List (String × Node)}
    (ordered : Ordered (.directory entries))
    {name : String}
    (isName : Path.IsName name)
    {child : Node}
    (childOrdered : child.Ordered) :
    Ordered (.directory (Entries.insert name child entries)) := by
  cases ordered with
  | directory sorted named below =>
      refine .directory (sorted.insert name child) ?_ ?_
      · intro entry member
        rcases Entries.mem_insert member with rfl | old
        · exact isName
        · exact named entry old
      · intro entry member
        rcases Entries.mem_insert member with rfl | old
        · exact childOrdered
        · exact below entry old

theorem lookup
    {entries : List (String × Node)}
    (ordered : Ordered (.directory entries))
    {name : String}
    {child : Node}
    (found : entries.lookup name = some child) :
    Path.IsName name ∧ child.Ordered := by
  cases ordered with
  | directory sorted named below =>
      have member := Entries.mem_of_lookup found
      exact ⟨named _ member, below _ member⟩

theorem put
    {node new : Node}
    (ordered : node.Ordered)
    (newOrdered : new.Ordered)
    {place : Place}
    (named : place.Named) :
    (Node.put new node place).Ordered := by
  induction place generalizing node with
  | nil =>
      cases node <;> exact newOrdered
  | cons name rest inductionHypothesis =>
      obtain ⟨isName, restNamed⟩ := List.forall_mem_cons.mp named
      cases node with
      | file content mode =>
          exact ordered
      | link target =>
          exact ordered
      | directory entries =>
          rw [Node.put]
          refine ordered.insert isName (inductionHypothesis ?_ restNamed)
          cases found : entries.lookup name with
          | none =>
              exact empty
          | some child =>
              exact (ordered.lookup found).2

theorem remove
    {node : Node}
    (ordered : node.Ordered)
    (place : Place) :
    (node.remove place).Ordered := by
  induction place generalizing node with
  | nil =>
      cases node <;> exact ordered
  | cons name rest inductionHypothesis =>
      cases node with
      | file content mode =>
          exact ordered
      | link target =>
          exact ordered
      | directory entries =>
          cases rest with
          | nil =>
              rw [Node.remove]
              cases ordered with
              | directory sorted named below =>
                  refine .directory (sorted.erase name) ?_ ?_
                  · intro entry member
                    exact named entry (List.mem_filter.mp member).1
                  · intro entry member
                    exact below entry (List.mem_filter.mp member).1
          | cons second others =>
              rw [Node.remove.eq_5 _ _ _ (by simp)]
              split
              · rename_i child found
                obtain ⟨isName, childOrdered⟩ := ordered.lookup found
                exact ordered.insert isName (inductionHypothesis childOrdered)
              · exact ordered

theorem get?
    {node child : Node}
    (ordered : node.Ordered)
    {place : Place}
    (found : node.get? place = some child) :
    place.Named ∧ child.Ordered := by
  induction place generalizing node with
  | nil =>
      have same : node = child := by
        cases node <;> exact Option.some.inj found
      exact ⟨List.forall_mem_nil _, same ▸ ordered⟩
  | cons name rest inductionHypothesis =>
      cases node with
      | file content mode =>
          cases found
      | link target =>
          cases found
      | directory entries =>
          rw [get?_directory_cons] at found
          obtain ⟨next, isNext, below⟩ := Option.bind_eq_some_iff.mp found
          obtain ⟨isName, nextOrdered⟩ := ordered.lookup isNext
          obtain ⟨restNamed, childOrdered⟩ := inductionHypothesis nextOrdered below
          exact ⟨List.forall_mem_cons.mpr ⟨isName, restNamed⟩, childOrdered⟩

/-- Trees in order in which the same stands everywhere are the same. -/
theorem eq_of_kindAt?
    {first second : Node}
    (firstOrdered : first.Ordered)
    (secondOrdered : second.Ordered)
    (same : ∀ place, first.kindAt? place = second.kindAt? place) :
    first = second := by
  induction firstOrdered generalizing second with
  | file content mode =>
      have top := same []
      cases second with
      | file held heldMode =>
          simp only [kindAt?_nil, kind, Option.some.injEq, Kind.file.injEq] at top
          rw [top.1, top.2]
      | link target | directory entries =>
          simp [kind] at top
  | link target =>
      have top := same []
      cases second with
      | link held =>
          simp only [kindAt?_nil, kind, Option.some.injEq, Kind.link.injEq] at top
          rw [top]
      | file held heldMode | directory entries =>
          simp [kind] at top
  | @directory entries sorted named below inductionHypothesis =>
      have top := same []
      cases second with
      | file held heldMode | link target =>
          simp [kind] at top
      | directory others =>
          cases secondOrdered with
          | directory otherSorted otherNamed otherBelow =>
              congr 1
              refine sorted.eq_of_lookup otherSorted ?_
              intro name
              have below (rest : Place) :
                  (entries.lookup name).bind (·.kindAt? rest) =
                    (others.lookup name).bind (·.kindAt? rest) := by
                rw [← kindAt?_directory_cons, ← kindAt?_directory_cons]
                exact same (name :: rest)
              cases found : entries.lookup name with
              | none =>
                  cases otherFound : others.lookup name with
                  | none =>
                      rfl
                  | some other =>
                      have own := below []
                      simp [found, otherFound] at own
              | some child =>
                  cases otherFound : others.lookup name with
                  | none =>
                      have own := below []
                      simp [found, otherFound] at own
                  | some other =>
                      congr 1
                      apply inductionHypothesis (name, child) (Entries.mem_of_lookup found)
                        (otherBelow (name, other) (Entries.mem_of_lookup otherFound))
                      intro rest
                      have own := below rest
                      rwa [found, otherFound] at own

end Ordered

/-- A tree of files and directories only, in order. -/
inductive WellFormed : Node → Prop
  | file (content : Content) (mode : Nat) :
      WellFormed (.file content mode)
  | directory {entries : List (String × Node)}
      (sorted : Entries.Sorted entries)
      (named : ∀ entry ∈ entries, Path.IsName entry.1)
      (below : ∀ entry ∈ entries, WellFormed entry.2) :
      WellFormed (.directory entries)

namespace WellFormed

theorem ordered
    {node : Node}
    (wellFormed : node.WellFormed) :
    node.Ordered := by
  induction wellFormed with
  | file content mode =>
      exact .file content mode
  | directory sorted named _ inductionHypothesis =>
      exact .directory sorted named inductionHypothesis

/-- There are no links in a tree of files and directories. -/
theorem kindAt?_ne_link
    {node : Node}
    (wellFormed : node.WellFormed)
    (place : Place)
    (target : String) :
    node.kindAt? place ≠ some (.link target) := by
  induction wellFormed generalizing place with
  | file content mode =>
      cases place <;> simp [kind]
  | directory sorted named below inductionHypothesis =>
      cases place with
      | nil =>
          simp [kind]
      | cons name rest =>
          intro isLink
          rw [kindAt?_directory_cons] at isLink
          obtain ⟨child, isChild, atChild⟩ := Option.bind_eq_some_iff.mp isLink
          exact inductionHypothesis _ (Entries.mem_of_lookup isChild) rest atChild

end WellFormed

end Node

namespace Disk

/-- What stands at a place of the disk. -/
def kindAt?
    (disk : Disk)
    (place : Place) :
    Option Node.Kind :=
  disk.root.kindAt? place

/-- The tree is in order and starts with a directory. -/
structure Ordered
    (disk : Disk) :
    Prop where
  tree : disk.root.Ordered
  rooted : disk.kindAt? [] = some .directory

/-- The tree is one of files and directories only and starts with a directory. -/
structure WellFormed
    (disk : Disk) :
    Prop where
  tree : disk.root.WellFormed
  rooted : disk.kindAt? [] = some .directory

theorem WellFormed.ordered
    {disk : Disk}
    (wellFormed : disk.WellFormed) :
    disk.Ordered :=
  ⟨wellFormed.tree.ordered, wellFormed.rooted⟩

theorem WellFormed.kindAt?_ne_link
    {disk : Disk}
    (wellFormed : disk.WellFormed)
    (place : Place)
    (target : String) :
    disk.kindAt? place ≠ some (.link target) :=
  wellFormed.tree.kindAt?_ne_link place target

/-- No link stands at a place or on the way to it. -/
def Plain
    (disk : Disk)
    (place : Place) :
    Prop :=
  ∀ above, above <+: place → ∀ target, disk.kindAt? above ≠ some (.link target)

theorem WellFormed.plain
    {disk : Disk}
    (wellFormed : disk.WellFormed)
    (place : Place) :
    disk.Plain place :=
  fun above _ target => wellFormed.kindAt?_ne_link above target

theorem Ordered.eq_of_kindAt?
    {first second : Disk}
    (firstOrdered : first.Ordered)
    (secondOrdered : second.Ordered)
    (sameWorkDir : first.workDir = second.workDir)
    (same : ∀ place, first.kindAt? place = second.kindAt? place) :
    first = second := by
  have sameRoot := firstOrdered.tree.eq_of_kindAt? secondOrdered.tree same
  cases first
  cases second
  congr

theorem Ordered.named
    {disk : Disk}
    (ordered : disk.Ordered)
    {place : Place}
    {kind : Node.Kind}
    (found : disk.kindAt? place = some kind) :
    place.Named := by
  obtain ⟨child, isChild, _⟩ := Option.map_eq_some_iff.mp found
  exact (ordered.tree.get? isChild).1

theorem kindAt?_put_file
    {disk : Disk}
    {parent : Place}
    {name : String}
    (held : disk.kindAt? parent = some .directory)
    (free : disk.kindAt? (parent ++ [name]) ≠ some .directory)
    (content : Content)
    (mode : Nat)
    (other : Place) :
    (disk.put (parent ++ [name]) (.file content mode)).kindAt? other =
      if other = parent ++ [name] then some (.file content mode) else disk.kindAt? other :=
  Node.kindAt?_put_file held free content mode other

theorem kindAt?_remove_file
    {disk : Disk}
    {place : Place}
    {content : Content}
    {mode : Nat}
    (ordered : disk.Ordered)
    (found : disk.kindAt? place = some (.file content mode))
    (other : Place) :
    (disk.remove place).kindAt? other =
      if other = place then none else disk.kindAt? other := by
  have notRoot : place ≠ [] := by
    rintro rfl
    rw [ordered.rooted] at found
    cases found
  refine (Node.kindAt?_remove disk.root notRoot other).trans ?_
  by_cases same : other = place
  · rw [if_pos same, if_pos (same ▸ List.prefix_rfl)]
  · rw [if_neg same]
    split
    · rename_i below
      obtain ⟨rest, rfl⟩ := below
      cases rest with
      | nil =>
          simp at same
      | cons name others =>
          symm
          by_contra present
          obtain ⟨kind, seen⟩ := Option.ne_none_iff_exists'.mp present
          have isDirectory := Node.kindAt?_of_append seen
          unfold Disk.kindAt? at found
          rw [found] at isDirectory
          cases isDirectory
    · rfl

theorem Ordered.put_file
    {disk : Disk}
    (ordered : disk.Ordered)
    {parent : Place}
    {name : String}
    (named : Place.Named (parent ++ [name]))
    (held : disk.kindAt? parent = some .directory)
    (free : disk.kindAt? (parent ++ [name]) ≠ some .directory)
    (content : Content)
    (mode : Nat) :
    (disk.put (parent ++ [name]) (.file content mode)).Ordered where
  tree := ordered.tree.put (.file content mode) named
  rooted := by
    rw [kindAt?_put_file held free, if_neg (by simp)]
    exact ordered.rooted

theorem Ordered.remove_file
    {disk : Disk}
    (ordered : disk.Ordered)
    {place : Place}
    {content : Content}
    {mode : Nat}
    (found : disk.kindAt? place = some (.file content mode)) :
    (disk.remove place).Ordered where
  tree := ordered.tree.remove place
  rooted := by
    rw [kindAt?_remove_file ordered found]
    split
    · rename_i isRoot
      rw [← isRoot, ordered.rooted] at found
      cases found
    · exact ordered.rooted

end Disk

end ScriptUplift
