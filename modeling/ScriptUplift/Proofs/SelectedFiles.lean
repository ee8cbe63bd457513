import Mathlib.Data.List.Nodup
import Mathlib.Tactic.Common
import ScriptUplift.Proofs.Preparation

namespace ScriptUplift

/-!
# The files a walk selects

A walk passes over whole directories on its way.  What it finds can be told for
each file by itself: a file is found if its path is included, its name not
excluded, its path not ignored, and none of the directories that lead to it from
the root is excluded, marked or ignored.  Nothing is used of the globs and of the
ignore rules but what they say about names and paths.
-/

namespace Node

variable {enters : Place → List (String × Node) → Bool} {keeps : Place → Bool}

mutual

/-- The files at kept places, below directories that are all entered. -/
def filesWhere
    (enters : Place → List (String × Node) → Bool)
    (keeps : Place → Bool)
    (trail : Place) :
    Node → List (Place × Content)
  | .file content _ =>
      if keeps trail then [(trail, content)] else []
  | .link target =>
      if keeps trail then [(trail, .text target.toList)] else []
  | .directory entries =>
      if enters trail entries then filesOfWhere enters keeps trail entries else []

/-- The same for the entries of a directory. -/
def filesOfWhere
    (enters : Place → List (String × Node) → Bool)
    (keeps : Place → Bool)
    (trail : Place) :
    List (String × Node) → List (Place × Content)
  | [] =>
      []
  | (name, node) :: rest =>
      filesWhere enters keeps (trail ++ [name]) node ++ filesOfWhere enters keeps trail rest

end

theorem filesOfWhere_eq_flatMap
    (trail : Place)
    (entries : List (String × Node)) :
    filesOfWhere enters keeps trail entries =
      entries.flatMap fun entry => filesWhere enters keeps (trail ++ [entry.1]) entry.2 := by
  induction entries with
  | nil =>
      rfl
  | cons entry rest inductionHypothesis =>
      rw [filesOfWhere, inductionHypothesis, List.flatMap_cons]

/-- Every directory on the way to a place below a node is entered. -/
def Entered
    (enters : Place → List (String × Node) → Bool)
    (start : Place)
    (node : Node)
    (trail : Place) :
    Prop :=
  ∀ above name below entries,
    trail = above ++ name :: below →
      node.get? above = some (.directory entries) →
      enters (start ++ above) entries = true

theorem entered_nil
    (start : Place)
    (node : Node) :
    Entered enters start node [] := by
  intro above name below entries parts
  simp at parts

theorem entered_cons
    {entries : List (String × Node)}
    {name : String}
    {child : Node}
    (found : entries.lookup name = some child)
    (start rest : Place) :
    Entered enters start (.directory entries) (name :: rest) ↔
      enters start entries = true ∧ Entered enters (start ++ [name]) child rest := by
  constructor
  · intro entered
    constructor
    · simpa using entered [] name rest entries rfl rfl
    · intro above next below inner parts seen
      have own := entered (name :: above) next below inner (by rw [parts]; rfl)
      rw [get?_directory_cons, found] at own
      simpa using own seen
  · rintro ⟨here, further⟩ above next below inner parts seen
    cases above with
    | nil =>
        obtain rfl : entries = inner := by
          simpa using seen
        simpa using here
    | cons first others =>
        obtain ⟨rfl, rfl⟩ := List.cons.inj parts
        rw [get?_directory_cons, found] at seen
        simpa using further others next below inner rfl seen

/-- What is found are the files at kept places to which every directory is entered. -/
theorem mem_filesWhere
    {node : Node}
    (wellFormed : node.WellFormed)
    {start found : Place}
    {content : Content} :
    (found, content) ∈ node.filesWhere enters keeps start ↔
      ∃ rest mode,
        found = start ++ rest ∧
          node.get? rest = some (.file content mode) ∧
          keeps found = true ∧
          Entered enters start node rest := by
  induction wellFormed generalizing start with
  | file held mode =>
      rw [filesWhere]
      constructor
      · intro member
        split at member
        · rename_i kept
          obtain ⟨rfl, rfl⟩ := Prod.mk.inj (List.mem_singleton.mp member)
          exact ⟨[], mode, by simp, rfl, kept, entered_nil _ _⟩
        · cases member
      · rintro ⟨rest, heldMode, rfl, stands, kept, _⟩
        cases rest with
        | nil =>
            obtain ⟨rfl, rfl⟩ : held = content ∧ mode = heldMode := by
              simpa using stands
            rw [List.append_nil] at kept ⊢
            rw [if_pos kept]
            exact List.mem_singleton.mpr rfl
        | cons name below =>
            cases stands
  | @directory entries sorted named below inductionHypothesis =>
      rw [filesWhere, filesOfWhere_eq_flatMap]
      constructor
      · intro member
        split at member
        · rename_i here
          obtain ⟨⟨name, child⟩, isEntry, inside⟩ := List.mem_flatMap.mp member
          have lookedUp := sorted.lookup_of_mem isEntry
          obtain ⟨rest, mode, isFound, stands, kept, entered⟩ :=
            (inductionHypothesis _ isEntry).mp inside
          refine ⟨name :: rest, mode, ?_, ?_, kept, (entered_cons lookedUp _ _).mpr ⟨here, entered⟩⟩
          · simpa using isFound
          · rw [get?_directory_cons, lookedUp]
            exact stands
        · cases member
      · rintro ⟨rest, mode, rfl, stands, kept, entered⟩
        cases rest with
        | nil =>
            simp at stands
        | cons name others =>
            rw [get?_directory_cons] at stands
            obtain ⟨child, isChild, stands⟩ := Option.bind_eq_some_iff.mp stands
            obtain ⟨here, further⟩ := (entered_cons isChild _ _).mp entered
            rw [if_pos here]
            refine List.mem_flatMap.mpr ⟨(name, child), Entries.mem_of_lookup isChild, ?_⟩
            refine (inductionHypothesis _ (Entries.mem_of_lookup isChild)).mpr
              ⟨others, mode, by simp, stands, kept, further⟩

/-- No place is found twice. -/
theorem nodup_filesWhere
    {node : Node}
    (wellFormed : node.WellFormed)
    (start : Place) :
    ((node.filesWhere enters keeps start).map Prod.fst).Nodup := by
  induction wellFormed generalizing start with
  | file held mode =>
      rw [filesWhere]
      split <;> simp
  | @directory entries sorted named below inductionHypothesis =>
      rw [filesWhere, filesOfWhere_eq_flatMap]
      split
      · rw [List.map_flatMap, List.nodup_flatMap]
        refine ⟨fun entry isEntry => inductionHypothesis entry isEntry _, ?_⟩
        refine sorted.imp_of_mem ?_
        -- What lies below one entry has its name right behind the start, and no other.
        intro first second isFirst isSecond different
        have leads {entry : String × Node} (isEntry : entry ∈ entries) {place : Place}
            (found : place ∈ (entry.2.filesWhere enters keeps (start ++ [entry.1])).map Prod.fst) :
            ∃ rest, place = start ++ entry.1 :: rest := by
          obtain ⟨⟨_, content⟩, member, rfl⟩ := List.mem_map.mp found
          obtain ⟨rest, _, isPlace, _⟩ := (mem_filesWhere (below entry isEntry)).mp member
          exact ⟨rest, by simpa using isPlace⟩
        intro place inFirst inSecond
        obtain ⟨rest, rfl⟩ := leads isFirst inFirst
        obtain ⟨other, same⟩ := leads isSecond inSecond
        rw [(List.cons.inj (List.append_cancel_left same)).1] at different
        exact String.lt_irrefl _ different
      · exact List.nodup_nil

/-- The names below a directory are those its entries have. -/
theorem any_name_eq
    (entries : List (String × Node))
    (name : String) :
    entries.any (·.1 == name) = ((Node.directory entries).get? [name]).isSome := by
  rw [get?_directory_cons]
  induction entries with
  | nil =>
      rfl
  | cons entry rest inductionHypothesis =>
      by_cases same : name = entry.1
      · simp [same]
      · rw [Entries.lookup_cons_of_ne same, List.any_cons, inductionHypothesis,
          beq_false_of_ne (Ne.symm same), Bool.false_or]

end Node

/--
What a walk goes by: the globs, whatever it is that a glob describes, and the
paths that are ignored.
-/
structure Selection where
  includes : List String
  excludeDirs : List String
  excludeFiles : List String
  describes : String → String → Bool
  ignores : String → Bool

namespace Selection

variable (selection : Selection)

/-- The name of what a trail leads to; the root goes by a dot. -/
def nameOf
    (trail : Place) :
    String :=
  trail.getLast?.getD "."

/-- Whether a directory is passed over. -/
def passesOver
    (trail : Place)
    (entries : List (String × Node)) :
    Bool :=
  selection.excludeDirs.any (selection.describes · (nameOf trail)) ||
    entries.any (·.1 == Walker.ignoreMarker) ||
    selection.ignores (Walker.relativePath trail ++ "/")

/-- Whether a directory is entered; the root is, whatever it holds. -/
def enters
    (trail : Place)
    (entries : List (String × Node)) :
    Bool :=
  trail.isEmpty || !selection.passesOver trail entries

/-- Whether a file is kept. -/
def keeps
    (trail : Place) :
    Bool :=
  selection.includes.any (selection.describes · (Walker.relativePath trail)) &&
    !selection.excludeFiles.any (selection.describes · (nameOf trail)) &&
    !selection.ignores (Walker.relativePath trail)

/-- The files that a walk of a tree finds. -/
def filesAt
    (tree : Node) :
    List (Place × Content) :=
  tree.filesWhere selection.enters selection.keeps []

/-- A directory below the root is open: not excluded by its name, not marked and not ignored. -/
structure Opens
    (tree : Node)
    (trail : Place) :
    Prop where
  named : ∀ glob ∈ selection.excludeDirs, selection.describes glob (nameOf trail) = false
  unmarked : tree.get? (trail ++ [Walker.ignoreMarker]) = none
  shown : selection.ignores (Walker.relativePath trail ++ "/") = false

/-- A file is selected by its own path and name, and by the directories that lead to it. -/
structure Selects
    (tree : Node)
    (trail : Place) :
    Prop where
  included : ∃ glob ∈ selection.includes,
    selection.describes glob (Walker.relativePath trail) = true
  named : ∀ glob ∈ selection.excludeFiles, selection.describes glob (nameOf trail) = false
  shown : selection.ignores (Walker.relativePath trail) = false
  opened : ∀ above, above <+: trail → above ≠ [] → above ≠ trail → selection.Opens tree above

variable {selection}

theorem keeps_iff
    {trail : Place} :
    selection.keeps trail = true ↔
      (∃ glob ∈ selection.includes,
          selection.describes glob (Walker.relativePath trail) = true) ∧
        (∀ glob ∈ selection.excludeFiles, selection.describes glob (nameOf trail) = false) ∧
        selection.ignores (Walker.relativePath trail) = false := by
  simp only [keeps, Bool.and_eq_true, Bool.not_eq_true', List.any_eq_true, List.any_eq_false,
    Bool.not_eq_true, and_assoc]

/-- A directory below the root is entered if it is open. -/
theorem enters_iff
    {tree : Node}
    {trail : Place}
    (below : trail ≠ [])
    {entries : List (String × Node)}
    (found : tree.get? trail = some (.directory entries)) :
    selection.enters trail entries = true ↔ selection.Opens tree trail := by
  have marked : (tree.get? (trail ++ [Walker.ignoreMarker])).isSome =
      entries.any (·.1 == Walker.ignoreMarker) := by
    rw [Node.get?_append, found, Node.any_name_eq]
    rfl
  have isBelow : trail.isEmpty = false := by
    simpa using below
  rw [enters, passesOver, isBelow, ← marked]
  simp only [Bool.false_or, Bool.not_eq_true', Bool.or_eq_false_iff, List.any_eq_false,
    Bool.not_eq_true, Option.isSome_eq_false_iff, Option.isNone_iff_eq_none]
  exact ⟨fun ⟨⟨named, unmarked⟩, shown⟩ => ⟨named, unmarked, shown⟩,
    fun opens => ⟨⟨opens.named, opens.unmarked⟩, opens.shown⟩⟩

/-- The way to a file is entered if every directory on it is open. -/
theorem entered_iff
    {tree : Node}
    {trail : Place}
    {content : Content}
    {mode : Nat}
    (stands : tree.get? trail = some (.file content mode)) :
    Node.Entered selection.enters [] tree trail ↔
      ∀ above, above <+: trail → above ≠ [] → above ≠ trail → selection.Opens tree above := by
  have onTheWay {above : Place} {name : String} {below : Place}
      (parts : trail = above ++ name :: below) :
      ∃ entries, tree.get? above = some (.directory entries) := by
    rw [parts] at stands
    exact Node.get?_of_kindAt?_directory (Node.kindAt?_of_append (Node.kindAt?_of_get? stands))
  constructor
  · rintro entered above ⟨rest, parts⟩ notRoot notWhole
    cases rest with
    | nil =>
        exact absurd (by simpa using parts) notWhole
    | cons name below =>
        obtain ⟨entries, isDirectory⟩ := onTheWay parts.symm
        exact (enters_iff notRoot isDirectory).mp
          (entered above name below entries parts.symm isDirectory)
  · intro opened above name below entries parts isDirectory
    rw [List.nil_append]
    by_cases isRoot : above = []
    · rw [isRoot]
      rfl
    · refine (enters_iff isRoot isDirectory).mpr (opened above ⟨_, parts.symm⟩ isRoot ?_)
      intro whole
      rw [whole] at parts
      simp at parts

/-- What a walk finds are the selected files of the tree. -/
theorem mem_filesAt
    {tree : Node}
    (wellFormed : tree.WellFormed)
    {trail : Place}
    {content : Content} :
    (trail, content) ∈ selection.filesAt tree ↔
      (∃ mode, tree.get? trail = some (.file content mode)) ∧ selection.Selects tree trail := by
  unfold filesAt
  rw [Node.mem_filesWhere wellFormed]
  constructor
  · rintro ⟨rest, mode, rfl, stands, kept, entered⟩
    obtain ⟨included, named, shown⟩ := keeps_iff.mp kept
    exact ⟨⟨mode, stands⟩, included, named, shown, (entered_iff stands).mp entered⟩
  · rintro ⟨⟨mode, stands⟩, selects⟩
    exact ⟨trail, mode, rfl, stands, keeps_iff.mpr ⟨selects.included, selects.named, selects.shown⟩,
      (entered_iff stands).mpr selects.opened⟩

end Selection

namespace Walker

/-- The selection of a walker. -/
def selection
    (walker : Walker) :
    Selection where
  includes := walker.includes
  excludeDirs := walker.excludeDirs
  excludeFiles := walker.excludeFiles
  describes := fun glob name => Glob.describes glob.toList name.toList
  ignores := walker.ignores

variable {walker : Walker}

theorem base_relativePath
    {trail : Place}
    (named : trail.Named) :
    Path.base (relativePath trail) = Selection.nameOf trail := by
  rcases List.eq_nil_or_concat trail with rfl | ⟨above, name, rfl⟩
  · decide
  · rw [List.concat_eq_append] at named ⊢
    have notEmpty : name ≠ "" := (named name (by simp)).1
    unfold Path.base relativePath
    rw [if_neg (by simp), Path.names_intercalate named (by simp)]
    simp [Selection.nameOf, notEmpty]

theorem keeps_eq
    {trail : Place}
    (named : trail.Named) :
    walker.keeps trail = walker.selection.keeps trail := by
  unfold keeps
  dsimp only
  rw [base_relativePath named]
  rfl

/-- It is told which of the directories below a place have an entry that marks them. -/
def Tells
    (isMarked : Place → Bool)
    (start : Place)
    (node : Node) :
    Prop :=
  ∀ below entries,
    node.get? below = some (.directory entries) →
      isMarked (start ++ below) = entries.any (·.1 == ignoreMarker)

theorem Tells.child
    {isMarked : Place → Bool}
    {start : Place}
    {entries : List (String × Node)}
    (tells : Tells isMarked start (.directory entries))
    {name : String}
    {child : Node}
    (found : entries.lookup name = some child) :
    Tells isMarked (start ++ [name]) child := by
  intro below inner seen
  rw [List.append_assoc]
  refine tells ([name] ++ below) inner ?_
  rw [List.singleton_append, Node.get?_directory_cons, found]
  exact seen

/-- In a tree without links, looking for the marker of a directory tells whether it has one. -/
theorem tells_marked
    {disk : Disk}
    (wellFormed : disk.WellFormed)
    {root : Place}
    {tree : Node}
    (found : disk.root.get? root = some tree) :
    Tells (marked disk root) [] tree := by
  intro below entries isDirectory
  have whole : disk.root.get? (root ++ below) = some (.directory entries) := by
    rw [Node.get?_append, found]
    exact isDirectory
  have named : Place.Named (root ++ below ++ [ignoreMarker]) :=
    List.forall_mem_append.mpr ⟨wellFormed.ordered.named (Node.kindAt?_of_get? whole),
      List.forall_mem_singleton.mpr (by decide)⟩
  have entered : disk.kindAt? (root ++ below ++ [ignoreMarker]) =
      (Node.directory entries).kindAt? [ignoreMarker] := by
    unfold Disk.kindAt?
    rw [Node.kindAt?_append, whole, Option.bind_some]
  unfold marked
  rw [List.nil_append, Disk.exists?_path wellFormed.ordered named (wellFormed.plain _), entered,
    Node.any_name_eq]
  exact Option.isSome_map

variable {isMarked : Place → Bool}

theorem skips_eq
    {above : Place}
    {name : String}
    {entries : List (String × Node)}
    (tells : Tells isMarked (above ++ [name]) (.directory entries)) :
    walker.skips isMarked name (above ++ [name]) =
      walker.selection.passesOver (above ++ [name]) entries := by
  have own := tells [] entries (Node.get?_nil _)
  rw [List.append_nil] at own
  unfold skips Selection.passesOver Selection.nameOf
  rw [List.getLast?_concat, own]
  rfl

theorem filesOf_eq_flatMap
    (trail : Place)
    (entries : List (String × Node)) :
    walker.filesOf isMarked trail entries =
      entries.flatMap fun entry =>
        walker.filesBelow isMarked entry.1 (trail ++ [entry.1]) entry.2 := by
  induction entries with
  | nil =>
      rfl
  | cons entry rest inductionHypothesis =>
      rw [filesOf, inductionHypothesis, List.flatMap_cons]

theorem filesBelow_eq
    {node : Node}
    (wellFormed : node.WellFormed)
    {above : Place}
    {name : String}
    (named : Place.Named (above ++ [name]))
    (tells : Tells isMarked (above ++ [name]) node) :
    walker.filesBelow isMarked name (above ++ [name]) node =
      node.filesWhere walker.selection.enters walker.selection.keeps (above ++ [name]) := by
  induction wellFormed generalizing above name with
  | file content mode =>
      rw [filesBelow, Node.filesWhere, keeps_eq named]
  | @directory entries sorted entriesNamed below inductionHypothesis =>
      rw [filesBelow, Node.filesWhere, filesOf_eq_flatMap, Node.filesOfWhere_eq_flatMap,
        skips_eq tells, Selection.enters]
      have inside : ∀ entry ∈ entries,
          walker.filesBelow isMarked entry.1 (above ++ [name] ++ [entry.1]) entry.2 =
            entry.2.filesWhere walker.selection.enters walker.selection.keeps
              (above ++ [name] ++ [entry.1]) := by
        intro entry isEntry
        refine inductionHypothesis entry isEntry ?_ (tells.child (sorted.lookup_of_mem isEntry))
        exact List.forall_mem_append.mpr
          ⟨named, List.forall_mem_singleton.mpr (entriesNamed entry isEntry)⟩
      rw [List.flatMap_congr inside]
      cases walker.selection.passesOver (above ++ [name]) entries <;> simp

/-- A walker finds what its selection finds, where it is told which directories are marked. -/
theorem filesAt_eq
    {tree : Node}
    (wellFormed : tree.WellFormed)
    (tells : Tells isMarked [] tree) :
    walker.filesAt isMarked tree = walker.selection.filesAt tree := by
  unfold Selection.filesAt
  cases wellFormed with
  | file content mode =>
      rw [filesAt, Node.filesWhere, keeps_eq (List.forall_mem_nil _)]
  | @directory entries sorted named below =>
      rw [filesAt, Node.filesWhere, filesOf_eq_flatMap, Node.filesOfWhere_eq_flatMap,
        Selection.enters, List.isEmpty_nil, Bool.true_or, if_pos rfl]
      refine List.flatMap_congr fun entry isEntry => ?_
      exact filesBelow_eq (below entry isEntry)
        (List.forall_mem_singleton.mpr (named entry isEntry))
        (tells.child (sorted.lookup_of_mem isEntry))

/--
Whatever the globs describe and the ignore rules leave out, a walk of a tree
finds each selected file once and nothing else; and a walker that is given the
path of the tree finds these files.
-/
theorem walk_finds_selected_files
    (selection : Selection)
    {tree : Node}
    (wellFormed : tree.WellFormed) :
    ((selection.filesAt tree).map Prod.fst).Nodup ∧
      (∀ trail content, (trail, content) ∈ selection.filesAt tree ↔
        (∃ mode, tree.get? trail = some (.file content mode)) ∧
          selection.Selects tree trail) ∧
      ∀ (walker : Walker) (disk : Disk) (path : String),
        walker.selection = selection →
          disk.WellFormed →
          disk.root.get? (Path.place disk.workDir path) = some tree →
          walker.walk disk path = .ok ((selection.filesAt tree).map fun (trail, content) =>
            { place := Path.place disk.workDir path ++ trail
              relative := relativePath trail
              size := content.size }) := by
  refine ⟨Node.nodup_filesWhere wellFormed [], fun trail content => ?_, ?_⟩
  · exact Selection.mem_filesAt wellFormed
  · rintro walker disk path rfl diskWellFormed found
    unfold walk
    dsimp only
    rw [Disk.findEntry_path diskWellFormed.ordered found]
    dsimp only
    rw [filesAt_eq wellFormed (tells_marked diskWellFormed found)]

/-- A directory that is excluded, one with two scripts, and one that is marked. -/
def markedTree : Node :=
  let script : Node := .file (.text []) Disk.defaultMode
  .directory
    [(".godot", .directory [("cache.gd", script)]),
      ("game", .directory [("main.gd", script), ("main_old.gd", script)]),
      ("vendor", .directory [(".gdignore", script), ("tool.gd", script)])]

/-- One script is selected; the others are excluded by name, or below a directory that is. -/
theorem walk_of_marked_tree :
    markedTree.WellFormed ∧
      let walker := Walker.ofGlobs [] [".godot"] ["*_old.gd"]
      walker.walk { root := markedTree } "/" =
          .ok [⟨["game", "main.gd"], "game/main.gd", 0⟩] ∧
        walker.selection.Selects markedTree ["game", "main.gd"] ∧
        ¬ walker.selection.Selects markedTree ["vendor", "tool.gd"] := by
  have wellFormed : markedTree.WellFormed := by
    refine .directory (by decide) (by decide) ?_
    refine List.forall_mem_cons.mpr ⟨.directory (by decide) (by decide) ?_, ?_⟩
    · exact List.forall_mem_singleton.mpr (.file _ _)
    · refine List.forall_mem_cons.mpr ⟨.directory (by decide) (by decide) ?_,
        List.forall_mem_singleton.mpr (.directory (by decide) (by decide) ?_)⟩
      · exact List.forall_mem_cons.mpr ⟨.file _ _, List.forall_mem_singleton.mpr (.file _ _)⟩
      · exact List.forall_mem_cons.mpr ⟨.file _ _, List.forall_mem_singleton.mpr (.file _ _)⟩
  refine ⟨wellFormed, ?_⟩
  intro walker
  obtain ⟨_, selected, walked⟩ := walk_finds_selected_files walker.selection wellFormed
  have found : walker.selection.filesAt markedTree = [(["game", "main.gd"], .text [])] := by
    decide +kernel
  rw [found] at selected walked
  refine ⟨?_, ?_, ?_⟩
  · exact walked walker { root := markedTree } "/" rfl ⟨wellFormed, rfl⟩ rfl
  · exact ((selected ["game", "main.gd"] (.text [])).mp (by simp)).2
  · intro selects
    have standing : ∃ mode, markedTree.get? ["vendor", "tool.gd"] = some (.file (.text []) mode) :=
      ⟨_, rfl⟩
    simpa using (selected ["vendor", "tool.gd"] (.text [])).mpr ⟨standing, selects⟩

end Walker

end ScriptUplift
