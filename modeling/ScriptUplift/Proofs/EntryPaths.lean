import Mathlib.Data.List.Nodup
import Mathlib.Data.List.Perm.Subperm
import Mathlib.Tactic.Common
import ScriptUplift.Proofs.LinkedPaths

namespace ScriptUplift

/-!
# Entries behind links

A path can lead through links to the directory that holds its last name.  The entry it
leads to stands there under that name, and other names behind the same path lead into
the same directory, so that a temporary file comes to stand beside the entry, under a
number that is free.  A change of the disk that the way to an entry does not pass leaves
the entry where it is.
-/

namespace Disk

/-- A place is one name behind a directory. -/
def BehindDirectory
    (root : Node)
    (place : Place) :
    Prop :=
  ∃ parent name,
    place = parent ++ [name] ∧ root.kindAt? parent = some .directory ∧ Path.IsName name

section

variable {root : Node} {toEnd : Bool} {here parent reached : Place} {front : List String}
  {name : String} {jump jumpEnd : Place → String → List String → Except DiskCause Place}

/-- What is reached by a last name is reached through a directory. -/
theorem exists_parent_of_followNames
    (jumps : ∀ here target rest, jump here target (rest ++ [name]) = .ok reached →
      ∃ parent, jumpEnd here target rest = .ok parent ∧ root.kindAt? parent = some .directory)
    (leads : followNames root toEnd jump here (front ++ [name]) = .ok reached) :
    ∃ parent,
      followNames root true jumpEnd here front = .ok parent ∧
        root.kindAt? parent = some .directory := by
  induction front generalizing here with
  | nil =>
      exact ⟨here, rfl, held_of_followNames_cons leads⟩
  | cons next others inductionHypothesis =>
      have held := held_of_followNames_cons leads
      rw [List.cons_append] at leads
      by_cases linked : ∃ target, root.kindAt? (stepTo here next) = some (.link target)
      · obtain ⟨target, isLink⟩ := linked
        rw [followNames_cons_link _ held isLink, if_neg (by simp)] at leads ⊢
        exact jumps _ _ _ leads
      · have noLink (target : String) : root.kindAt? (stepTo here next) ≠ some (.link target) :=
          fun isLink => linked ⟨target, isLink⟩
        rw [followNames_cons_next _ held noLink] at leads ⊢
        exact inductionHypothesis leads

theorem exists_parent_of_follow
    {links : Nat}
    (leads : follow root toEnd links here (front ++ [name]) = .ok reached) :
    ∃ parent,
      follow root true links here front = .ok parent ∧
        root.kindAt? parent = some .directory := by
  induction links generalizing here front with
  | zero =>
      refine exists_parent_of_followNames (fun _ _ _ never => ?_) leads
      cases never
  | succ links inductionHypothesis =>
      refine exists_parent_of_followNames (fun _ _ _ ahead => ?_) leads
      rw [← List.append_assoc] at ahead
      exact inductionHypothesis ahead

/-- From where names lead to, a last name leads on. -/
theorem followNames_concat
    (isName : Path.IsName name)
    (held : root.kindAt? parent = some .directory)
    (plain : toEnd = true → ∀ target, root.kindAt? (parent ++ [name]) ≠ some (.link target))
    (jumps : ∀ here target rest, jumpEnd here target rest = .ok parent →
      jump here target (rest ++ [name]) = .ok (parent ++ [name]))
    (leads : followNames root true jumpEnd here front = .ok parent) :
    followNames root toEnd jump here (front ++ [name]) = .ok (parent ++ [name]) := by
  induction front generalizing here with
  | nil =>
      obtain rfl := Except.ok.inj leads
      rw [← stepTo_of_isName isName here] at plain ⊢
      exact followNames_singleton held plain
  | cons next others inductionHypothesis =>
      have nextHeld := held_of_followNames_cons leads
      rw [List.cons_append]
      by_cases linked : ∃ target, root.kindAt? (stepTo here next) = some (.link target)
      · obtain ⟨target, isLink⟩ := linked
        rw [followNames_cons_link _ nextHeld isLink, if_neg (by simp)] at leads ⊢
        exact jumps _ _ _ leads
      · have noLink (target : String) : root.kindAt? (stepTo here next) ≠ some (.link target) :=
          fun isLink => linked ⟨target, isLink⟩
        rw [followNames_cons_next _ nextHeld noLink] at leads ⊢
        exact inductionHypothesis leads

theorem follow_concat
    {links : Nat}
    (isName : Path.IsName name)
    (held : root.kindAt? parent = some .directory)
    (plain : toEnd = true → ∀ target, root.kindAt? (parent ++ [name]) ≠ some (.link target))
    (leads : follow root true links here front = .ok parent) :
    follow root toEnd links here (front ++ [name]) = .ok (parent ++ [name]) := by
  induction links generalizing here front with
  | zero =>
      refine followNames_concat isName held plain (fun _ _ _ never => ?_) leads
      cases never
  | succ links inductionHypothesis =>
      refine followNames_concat isName held plain (fun _ _ _ ahead => ?_) leads
      rw [← List.append_assoc]
      exact inductionHypothesis ahead

/--
Where two trees differ at one place only, which is no directory and no link in one of
them, names that lead to a place in that one lead there in the other one, too: they end
with the place or do not come to it.
-/
theorem followNames_of_replaced
    {other : Node}
    {replaced : Place}
    {otherJump : Place → String → List String → Except DiskCause Place}
    (closed : other.kindAt? replaced ≠ some .directory)
    (noLink : ∀ target, other.kindAt? replaced ≠ some (.link target))
    (plain : toEnd = true → ∀ target, root.kindAt? replaced ≠ some (.link target))
    (same : ∀ place, place ≠ replaced → other.kindAt? place = root.kindAt? place)
    (jumps : ∀ here target rest, otherJump here target rest = .ok reached →
      jump here target rest = .ok reached)
    {names : List String}
    (leads : followNames other toEnd otherJump here names = .ok reached) :
    followNames root toEnd jump here names = .ok reached := by
  induction names generalizing here with
  | nil =>
      exact leads
  | cons next rest inductionHypothesis =>
      have otherHeld := held_of_followNames_cons leads
      have held : root.kindAt? here = some .directory := by
        rw [← same here, otherHeld]
        rintro rfl
        exact closed otherHeld
      by_cases isReplaced : stepTo here next = replaced
      · rw [followNames_cons_next _ otherHeld (by rw [isReplaced]; exact noLink), isReplaced]
          at leads
        cases rest with
        | cons behind more =>
            exact absurd (held_of_followNames_cons leads) closed
        | nil =>
            obtain rfl := Except.ok.inj leads
            rw [← isReplaced] at plain ⊢
            exact followNames_singleton held plain
      · have sameNext := same _ isReplaced
        by_cases linked : ∃ target, root.kindAt? (stepTo here next) = some (.link target)
        · obtain ⟨target, isLink⟩ := linked
          rw [followNames_cons_link _ otherHeld (sameNext.trans isLink)] at leads
          rw [followNames_cons_link _ held isLink]
          split at leads
          · rename_i stops
            rw [if_pos stops]
            exact leads
          · rename_i goesOn
            rw [if_neg goesOn]
            exact jumps _ _ _ leads
        · have notLinked (target : String) :
              root.kindAt? (stepTo here next) ≠ some (.link target) :=
            fun isLink => linked ⟨target, isLink⟩
          rw [followNames_cons_next _ otherHeld (by rw [sameNext]; exact notLinked)] at leads
          rw [followNames_cons_next _ held notLinked]
          exact inductionHypothesis leads

theorem follow_of_replaced
    {other : Node}
    {replaced : Place}
    {links : Nat}
    (closed : other.kindAt? replaced ≠ some .directory)
    (noLink : ∀ target, other.kindAt? replaced ≠ some (.link target))
    (plain : toEnd = true → ∀ target, root.kindAt? replaced ≠ some (.link target))
    (same : ∀ place, place ≠ replaced → other.kindAt? place = root.kindAt? place)
    {names : List String}
    (leads : follow other toEnd links here names = .ok reached) :
    follow root toEnd links here names = .ok reached := by
  induction links generalizing here names with
  | zero =>
      refine followNames_of_replaced closed noLink plain same (fun _ _ _ never => ?_) leads
      cases never
  | succ links inductionHypothesis =>
      exact followNames_of_replaced closed noLink plain same (fun _ _ _ => inductionHypothesis)
        leads

/-- A free place that names lead to is one name behind a directory. -/
theorem behindDirectory_of_followNames
    {names : List String}
    (noSlash : ∀ name ∈ names, '/' ∉ name.toList)
    (there : root.kindAt? here ≠ none)
    (absent : root.kindAt? reached = none)
    (jumps : ∀ here target rest, root.kindAt? here ≠ none → (∀ name ∈ rest, '/' ∉ name.toList) →
      jump here target rest = .ok reached →
      BehindDirectory root reached)
    (leads : followNames root toEnd jump here names = .ok reached) :
    BehindDirectory root reached := by
  induction names generalizing here with
  | nil =>
      obtain rfl := Except.ok.inj leads
      exact absurd absent there
  | cons name rest inductionHypothesis =>
      have held := held_of_followNames_cons leads
      obtain ⟨own, others⟩ := List.forall_mem_cons.mp noSlash
      by_cases linked : ∃ target, root.kindAt? (stepTo here name) = some (.link target)
      · obtain ⟨target, isLink⟩ := linked
        rw [followNames_cons_link _ held isLink] at leads
        split at leads
        · rw [← Except.ok.inj leads, isLink] at absent
          cases absent
        · exact jumps _ _ _ there others leads
      · have noLink (target : String) : root.kindAt? (stepTo here name) ≠ some (.link target) :=
          fun isLink => linked ⟨target, isLink⟩
        rw [followNames_cons_next _ held noLink] at leads
        by_cases present : root.kindAt? (stepTo here name) = none
        · cases rest with
          | cons next more =>
              exact absurd (held_of_followNames_cons leads) (by simp [present])
          | nil =>
              obtain rfl := Except.ok.inj leads
              unfold stepTo at absent ⊢
              split at absent
              · exact absurd absent there
              · rename_i shown
                split at absent
                · rcases List.eq_nil_or_concat here with rfl | ⟨above, last, rfl⟩
                  · exact absurd absent there
                  · rw [List.concat_eq_append] at held
                    rw [List.concat_eq_append, List.dropLast_concat, Node.kindAt?_of_append held]
                      at absent
                    cases absent
                · rename_i notUp
                  simp only [Bool.or_eq_true, decide_eq_true_eq, not_or] at shown
                  rw [if_neg notUp]
                  exact ⟨here, name, by simp [shown], held, shown.1, shown.2, notUp, own⟩
        · exact inductionHypothesis others present leads

theorem behindDirectory_of_follow
    {links : Nat}
    {names : List String}
    (noSlash : ∀ name ∈ names, '/' ∉ name.toList)
    (there : root.kindAt? here ≠ none)
    (absent : root.kindAt? reached = none)
    (leads : follow root toEnd links here names = .ok reached) :
    BehindDirectory root reached := by
  induction links generalizing here names with
  | zero =>
      refine behindDirectory_of_followNames noSlash there absent (fun _ _ _ _ _ never => ?_)
        leads
      cases never
  | succ links inductionHypothesis =>
      refine behindDirectory_of_followNames noSlash there absent
        (fun _ target _ hereThere restNoSlash ahead => ?_) leads
      refine inductionHypothesis (List.forall_mem_append.mpr
        ⟨fun _ => Path.not_mem_of_mem_names, restNoSlash⟩) ?_ ahead
      split
      · simp
      · exact hereThere

end

variable {disk other : Disk} {front parent names place : Place} {name : String} {kind : Node.Kind}

/-! ## Paths behind a directory -/

/-- A path that leads somewhere leads there through the directory of its last name. -/
theorem exists_parent_of_resolve
    (ordered : disk.Ordered)
    (named : Place.Named (front ++ [name]))
    {toEnd : Bool}
    {reached : Place}
    (leads : disk.resolve toEnd (Place.path (front ++ [name])) = .ok reached) :
    ∃ parent,
      disk.targetOf front.path = .ok parent ∧
        disk.kindAt? parent = some .directory := by
  have frontNamed : front.Named := fun other member => named other (List.mem_append_left _ member)
  rw [resolve_path ordered named] at leads
  obtain ⟨parent, opens, held⟩ := exists_parent_of_follow leads
  exact ⟨parent, (resolve_path ordered frontNamed true).trans opens, held⟩

/-- Behind the path of a directory a name leads into it, unless a link there is followed. -/
theorem resolve_behind
    (ordered : disk.Ordered)
    (named : Place.Named (front ++ [name]))
    (opens : disk.targetOf front.path = .ok parent)
    (held : disk.kindAt? parent = some .directory)
    {toEnd : Bool}
    (plain : toEnd = true → ∀ target, disk.kindAt? (parent ++ [name]) ≠ some (.link target)) :
    disk.resolve toEnd (Place.path (front ++ [name])) = .ok (parent ++ [name]) := by
  have frontNamed : front.Named := fun other member => named other (List.mem_append_left _ member)
  rw [targetOf, resolve_path ordered frontNamed] at opens
  rw [resolve_path ordered named]
  exact follow_concat (named name (by simp)) held plain opens

theorem placeOf_behind
    (ordered : disk.Ordered)
    (named : Place.Named (front ++ [name]))
    (opens : disk.targetOf front.path = .ok parent)
    (held : disk.kindAt? parent = some .directory) :
    disk.placeOf (Place.path (front ++ [name])) = .ok (parent ++ [name]) :=
  resolve_behind ordered named opens held (by simp)

/-- Behind the path of a directory, a path is taken where something stands in it. -/
theorem taken_behind
    (ordered : disk.Ordered)
    (named : Place.Named (front ++ [name]))
    (opens : disk.targetOf front.path = .ok parent)
    (held : disk.kindAt? parent = some .directory) :
    disk.taken (Place.path (front ++ [name])) = (disk.kindAt? (parent ++ [name])).isSome := by
  unfold taken findEntry kindAt? Node.kindAt?
  rw [placeOf_behind ordered named opens held, nodeAt]
  cases disk.root.get? (parent ++ [name]) <;> rfl

/-- Behind the path of a directory, names lead on to a directory below it. -/
theorem targetOf_append
    (ordered : disk.Ordered)
    {rest : Place}
    (named : Place.Named (front ++ rest))
    (opens : disk.targetOf front.path = .ok parent)
    (held : disk.kindAt? (parent ++ rest) = some .directory) :
    disk.targetOf (Place.path (front ++ rest)) = .ok (parent ++ rest) := by
  induction rest generalizing front parent with
  | nil =>
      rwa [List.append_nil, List.append_nil]
  | cons name others inductionHypothesis =>
      rw [List.append_cons] at named held
      have below : disk.kindAt? (parent ++ [name]) = some .directory := by
        cases others with
        | nil =>
            rwa [List.append_nil] at held
        | cons next more =>
            exact Node.kindAt?_of_append held
      have firstNamed : Place.Named (front ++ [name]) :=
        fun other member => named other (List.mem_append_left _ member)
      rw [List.append_cons, List.append_cons parent]
      refine inductionHypothesis named ?_ held
      exact resolve_behind ordered firstNamed opens (Node.kindAt?_of_append below)
        fun _ _ => by simp [below]

/-- Behind the path of a directory, names lead on to what stands below it. -/
theorem placeOf_append
    (ordered : disk.Ordered)
    {rest : Place}
    (named : Place.Named (front ++ rest))
    (notEmpty : rest ≠ [])
    (opens : disk.targetOf front.path = .ok parent)
    (found : disk.kindAt? (parent ++ rest) = some kind) :
    disk.placeOf (Place.path (front ++ rest)) = .ok (parent ++ rest) := by
  obtain ⟨between, name, rfl⟩ := (List.eq_nil_or_concat rest).resolve_left notEmpty
  rw [List.concat_eq_append, ← List.append_assoc] at named found
  rw [List.concat_eq_append, ← List.append_assoc, ← List.append_assoc]
  have held : disk.kindAt? (parent ++ between) = some .directory := Node.kindAt?_of_append found
  have aboveNamed : Place.Named (front ++ between) :=
    fun other member => named other (List.mem_append_left _ member)
  exact placeOf_behind ordered named (targetOf_append ordered aboveNamed opens held) held

/-- What is no link is where a path leads, whether a link at its end is followed or not. -/
theorem targetOf_of_placeOf
    (ordered : disk.Ordered)
    (named : names.Named)
    (leads : disk.placeOf names.path = .ok place)
    (noLink : ∀ target, disk.kindAt? place ≠ some (.link target)) :
    disk.targetOf names.path = .ok place := by
  rcases List.eq_nil_or_concat names with rfl | ⟨front, name, rfl⟩
  · exact (resolve_root ordered true).trans ((resolve_root ordered false).symm.trans leads)
  · rw [List.concat_eq_append] at named leads ⊢
    obtain ⟨parent, opens, held⟩ := exists_parent_of_resolve ordered named leads
    obtain rfl := Except.ok.inj ((placeOf_behind ordered named opens held).symm.trans leads)
    exact resolve_behind ordered named opens held fun _ => noLink

/-- A path that leads to something leads there as long as nothing is lost. -/
theorem resolve_of_kept
    (ordered : disk.Ordered)
    (otherOrdered : other.Ordered)
    (kept : ∀ place kind, disk.kindAt? place = some kind → other.kindAt? place = some kind)
    (named : names.Named)
    {toEnd : Bool}
    (leads : disk.resolve toEnd names.path = .ok place)
    (found : disk.kindAt? place = some kind) :
    other.resolve toEnd names.path = .ok place := by
  rw [resolve_path ordered named] at leads
  rw [resolve_path otherOrdered named]
  refine (follow_congr fun passed isPassed => ?_).1.trans leads
  obtain ⟨_, there⟩ := exists_kind_of_mem_passed leads ⟨kind, found⟩ passed isPassed
  exact (kept passed _ there).trans there.symm

/-! ## Temporary files -/

/-- The number of the temporary file that a replacement takes. -/
def freshNumber
    (disk : Disk)
    (directory name : String) :
    Nat :=
  ((List.range (disk.entryCount directory + 1)).find? fun number =>
    !disk.taken (temporaryPath directory name number)).getD 0

theorem freshTemporaryPath_eq
    (disk : Disk)
    (directory name : String) :
    disk.freshTemporaryPath directory name =
      temporaryPath directory name (disk.freshNumber directory name) :=
  rfl

theorem named_temporary
    (named : Place.Named (front ++ [name]))
    (number : Nat) :
    Place.Named (front ++ [temporaryName name number]) := by
  intro other member
  rcases List.mem_append.mp member with above | own
  · exact named other (List.mem_append_left _ above)
  · rw [List.mem_singleton.mp own]
    exact isName_temporaryName (named name (by simp)) number

/-- A directory has fewer entries than numbers are tried, so one of them is free. -/
theorem kindAt?_freshNumber
    (ordered : disk.Ordered)
    (named : Place.Named (front ++ [name]))
    (opens : disk.targetOf front.path = .ok parent)
    (held : disk.kindAt? parent = some .directory) :
    disk.kindAt? (parent ++ [temporaryName name (disk.freshNumber front.path name)]) = none := by
  have frontNamed : front.Named := fun other member => named other (List.mem_append_left _ member)
  obtain ⟨entries, isParent⟩ := Node.get?_of_kindAt?_directory held
  have counted : disk.entryCount front.path = entries.length := by
    unfold entryCount find
    rw [opens, nodeAt, isParent]
    rfl
  have answers (number : Nat) :
      disk.taken (temporaryPath front.path name number) =
        (disk.kindAt? (parent ++ [temporaryName name number])).isSome := by
    rw [temporaryPath_path frontNamed]
    exact taken_behind ordered (named_temporary named number) opens held
  unfold freshNumber
  cases tried : (List.range (disk.entryCount front.path + 1)).find? fun number =>
      !disk.taken (temporaryPath front.path name number) with
  | some number =>
      have free := List.find?_some tried
      simpa [answers] using free
  | none =>
      -- every number is taken, so there are more names than entries
      have taken (number : Nat) (small : number < entries.length + 1) :
          temporaryName name number ∈ entries.map Prod.fst := by
        have occupied := List.find?_eq_none.mp tried number (by simpa [counted] using small)
        rw [answers] at occupied
        obtain ⟨kind, seen⟩ := Option.ne_none_iff_exists'.mp (by simpa using occupied)
        unfold Disk.kindAt? at seen
        rw [Node.kindAt?_append, isParent, Option.bind_some, Node.kindAt?_directory_cons] at seen
        obtain ⟨child, isChild, _⟩ := Option.bind_eq_some_iff.mp seen
        exact List.mem_map.mpr ⟨_, Entries.mem_of_lookup isChild, rfl⟩
      have distinct : ((List.range (entries.length + 1)).map (temporaryName name)).Nodup :=
        List.Nodup.map (temporaryName_injective name) List.nodup_range
      have within : (List.range (entries.length + 1)).map (temporaryName name) ⊆
          entries.map Prod.fst := by
        intro other member
        obtain ⟨number, small, rfl⟩ := List.mem_map.mp member
        exact taken number (List.mem_range.mp small)
      have fits := (List.subperm_of_subset distinct within).length_le
      rw [List.length_map, List.length_map, List.length_range] at fits
      omega

end Disk

/-- The place of the temporary file with a number beside a place. -/
def Place.temporary
    (place : Place)
    (number : Nat) :
    Place :=
  place.dropLast ++ [Disk.temporaryName (place.getLast?.getD "") number]

theorem Place.temporary_ne
    (place : Place)
    (number : Nat) :
    place.temporary number ≠ place := by
  intro same
  have sameName : some (Disk.temporaryName (place.getLast?.getD "") number) = place.getLast? := by
    simpa [Place.temporary] using congrArg List.getLast? same
  have lengths := congrArg (fun last => (last.getD "").toList.length) sameName
  simp [Disk.temporaryName] at lengths
  omega

theorem Place.temporary_concat
    (parent : Place)
    (name : String)
    (number : Nat) :
    Place.temporary (parent ++ [name]) number = parent ++ [Disk.temporaryName name number] := by
  simp [Place.temporary]

/-- The path of names leads to an entry at a place, which is no directory. -/
structure Disk.Entry
    (disk : Disk)
    (names place : Place)
    (kind : Node.Kind) :
    Prop where
  named : names.Named
  leads : disk.placeOf names.path = .ok place
  found : disk.kindAt? place = some kind
  leaf : kind ≠ .directory

namespace Disk.Entry

variable {disk other : Disk} {names place : Place} {kind : Node.Kind}

/-- Where the path of names leads to a file, there is an entry. -/
theorem exists_of_find
    (ordered : disk.Ordered)
    (named : names.Named)
    {node : Node}
    (found : disk.find names.path = .ok node)
    (leaf : node.kind ≠ .directory) :
    ∃ place kind, disk.Entry names place kind := by
  obtain ⟨reached, leads, isNode⟩ := exists_place_of_nodeAt found
  have seen : disk.kindAt? reached = some node.kind := Node.kindAt?_of_get? isNode
  rcases List.eq_nil_or_concat names with rfl | ⟨front, name, rfl⟩
  · obtain rfl := Except.ok.inj ((resolve_root ordered true).symm.trans leads)
    exact absurd (Option.some.inj (seen.symm.trans ordered.rooted)) leaf
  · rw [List.concat_eq_append] at named leads ⊢
    obtain ⟨parent, opens, held⟩ := exists_parent_of_resolve ordered named leads
    have isEntry := placeOf_behind ordered named opens held
    by_cases linked : ∃ target, disk.kindAt? (parent ++ [name]) = some (.link target)
    · obtain ⟨target, isLink⟩ := linked
      exact ⟨_, _, named, isEntry, isLink, by simp⟩
    · have noLink (target : String) : disk.kindAt? (parent ++ [name]) ≠ some (.link target) :=
        fun isLink => linked ⟨target, isLink⟩
      obtain rfl := Except.ok.inj
        ((resolve_behind ordered named opens held fun _ => noLink).symm.trans leads)
      exact ⟨_, _, named, isEntry, seen, leaf⟩

/-- A path at which a script can be read leads to an entry. -/
theorem exists_of_readText
    (ordered : disk.Ordered)
    (named : names.Named)
    {content : Text}
    (read : disk.readText names.path = .ok content) :
    ∃ place kind, disk.Entry names place kind := by
  unfold readText Disk.read at read
  cases found : disk.find names.path with
  | error cause =>
      rw [found] at read
      cases read
  | ok node =>
      refine exists_of_find ordered named found ?_
      rintro isDirectory
      cases node with
      | directory entries =>
          rw [found] at read
          cases read
      | file held mode | link target =>
          cases isDirectory

theorem seat_eq
    (entry : disk.Entry names place kind) :
    disk.seat names = place := by
  unfold seat
  rw [entry.leads]

theorem eq_of_entry
    {otherPlace : Place}
    {otherKind : Node.Kind}
    (entry : disk.Entry names place kind)
    (same : disk.Entry names otherPlace otherKind) :
    place = otherPlace ∧ kind = otherKind := by
  obtain rfl := Except.ok.inj (entry.leads.symm.trans same.leads)
  exact ⟨rfl, Option.some.inj (entry.found.symm.trans same.found)⟩

/-- An entry stands in a directory, under the last name of its path. -/
theorem exists_parent
    (ordered : disk.Ordered)
    (entry : disk.Entry names place kind) :
    ∃ front name parent,
      names = front ++ [name] ∧
        place = parent ++ [name] ∧
        disk.targetOf (Place.path front) = .ok parent ∧
        disk.kindAt? parent = some .directory := by
  rcases List.eq_nil_or_concat names with rfl | ⟨front, name, rfl⟩
  · obtain rfl := Except.ok.inj ((resolve_root ordered false).symm.trans entry.leads)
    obtain rfl := Option.some.inj (ordered.rooted.symm.trans entry.found)
    exact absurd rfl entry.leaf
  · obtain ⟨named, leads, found, leaf⟩ := entry
    rw [List.concat_eq_append] at named leads ⊢
    obtain ⟨parent, opens, held⟩ := exists_parent_of_resolve ordered named leads
    have isPlace := (placeOf_behind ordered named opens held).symm.trans leads
    exact ⟨front, name, parent, rfl, (Except.ok.inj isPlace).symm, opens, held⟩

/-- The temporary file of an entry is a named file in the same directory. -/
theorem exists_temporary
    (ordered : disk.Ordered)
    (entry : disk.Entry names place kind)
    (number : Nat) :
    ∃ parent name,
      place = parent ++ [name] ∧
        place.temporary number = parent ++ [temporaryName name number] ∧
        disk.kindAt? parent = some .directory ∧
        Place.Named (place.temporary number) ∧
        disk.placeOf (temporaryPath (Path.parent names.path) (Path.base names.path) number) =
          .ok (place.temporary number) ∧
        disk.taken (temporaryPath (Path.parent names.path) (Path.base names.path) number) =
          (disk.kindAt? (place.temporary number)).isSome := by
  obtain ⟨front, name, parent, rfl, rfl, opens, held⟩ := entry.exists_parent ordered
  have frontNamed : Place.Named front :=
    fun other member => entry.named other (List.mem_append_left _ member)
  have named := named_temporary entry.named number
  rw [Path.parent_path entry.named, Path.base_path entry.named, temporaryPath_path frontNamed,
    Place.temporary_concat]
  exact ⟨parent, name, rfl, rfl, held, named_temporary (ordered.named entry.found) number,
    placeOf_behind ordered named opens held, taken_behind ordered named opens held⟩

/-- Nothing has the first free number. -/
theorem kindAt?_temporary_freshNumber
    (ordered : disk.Ordered)
    (entry : disk.Entry names place kind) :
    disk.kindAt? (place.temporary
      (disk.freshNumber (Path.parent names.path) (Path.base names.path))) = none := by
  obtain ⟨front, name, parent, rfl, rfl, opens, held⟩ := entry.exists_parent ordered
  rw [Path.parent_path entry.named, Path.base_path entry.named, Place.temporary_concat]
  exact kindAt?_freshNumber ordered entry.named opens held

/-- There is something everywhere on the way to an entry. -/
theorem exists_kind_of_mem_entryWay
    (ordered : disk.Ordered)
    (entry : disk.Entry names place kind) :
    ∀ passed ∈ disk.entryWay names, ∃ kind, disk.kindAt? passed = some kind := by
  have leads := entry.leads
  rw [placeOf, resolve_path ordered entry.named] at leads
  exact exists_kind_of_mem_passed leads ⟨kind, entry.found⟩

/-- The way to an entry ends with it. -/
theorem mem_entryWay
    (ordered : disk.Ordered)
    (entry : disk.Entry names place kind) :
    place ∈ disk.entryWay names := by
  have leads := entry.leads
  rw [placeOf, resolve_path ordered entry.named] at leads
  exact mem_passed_of_follow leads

/-- An entry stays where it is as long as nothing is lost. -/
theorem of_kept
    (ordered : disk.Ordered)
    (otherOrdered : other.Ordered)
    (kept : ∀ place kind, disk.kindAt? place = some kind → other.kindAt? place = some kind)
    (entry : disk.Entry names place kind) :
    other.Entry names place kind where
  named := entry.named
  leads := resolve_of_kept ordered otherOrdered kept entry.named entry.leads entry.found
  found := kept place kind entry.found
  leaf := entry.leaf

/-- An entry stays where nothing changes on the way to it. -/
theorem congr
    (ordered : disk.Ordered)
    (otherOrdered : other.Ordered)
    (entry : disk.Entry names place kind)
    (same : ∀ passed ∈ disk.entryWay names, other.kindAt? passed = disk.kindAt? passed) :
    other.Entry names place kind where
  named := entry.named
  leads := by
    have leads := entry.leads
    rw [placeOf, resolve_path ordered entry.named] at leads
    rw [placeOf, resolve_path otherOrdered entry.named]
    exact (follow_congr same).1.trans leads
  found := (same place (entry.mem_entryWay ordered)).trans entry.found
  leaf := entry.leaf

end Disk.Entry

end ScriptUplift
