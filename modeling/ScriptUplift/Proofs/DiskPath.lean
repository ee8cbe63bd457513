import Mathlib.Tactic.Common
import ScriptUplift.Disk.AtomicWrite
import ScriptUplift.Proofs.DiskTree

namespace ScriptUplift

/-!
# The place a path leads to

The path of a named place leads back to it, as long as there are directories to
follow it through and no link to be followed at its end.  What an operation answers for
such a path is then what stands at the place.
-/

namespace Text

theorem splitAt_of_not_mem
    {mark : Char}
    {piece : Text}
    (unmarked : mark ∉ piece) :
    splitAt mark piece = [piece] := by
  induction piece with
  | nil =>
      rfl
  | cons character rest inductionHypothesis =>
      obtain ⟨different, restUnmarked⟩ := not_or.mp (List.mem_cons.not.mp unmarked)
      rw [splitAt, if_neg (Ne.symm different), inductionHypothesis restUnmarked]

theorem splitAt_append_mark
    {mark : Char}
    {piece : Text}
    (unmarked : mark ∉ piece)
    (rest : Text) :
    splitAt mark (piece ++ mark :: rest) = piece :: splitAt mark rest := by
  induction piece with
  | nil =>
      simp [splitAt]
  | cons character others inductionHypothesis =>
      obtain ⟨different, othersUnmarked⟩ := not_or.mp (List.mem_cons.not.mp unmarked)
      rw [List.cons_append, splitAt, if_neg (Ne.symm different),
        inductionHypothesis othersUnmarked]

/-- Cutting joined pieces at the mark gives the pieces back. -/
theorem splitAt_joinWith
    {mark : Char}
    {pieces : List Text}
    (unmarked : ∀ piece ∈ pieces, mark ∉ piece)
    (some : pieces ≠ []) :
    splitAt mark (joinWith [mark] pieces) = pieces := by
  induction pieces with
  | nil =>
      exact absurd rfl some
  | cons piece rest inductionHypothesis =>
      obtain ⟨own, others⟩ := List.forall_mem_cons.mp unmarked
      cases rest with
      | nil =>
          rw [joinWith, List.intercalate_singleton, splitAt_of_not_mem own]
      | cons next more =>
          unfold joinWith at inductionHypothesis ⊢
          rw [List.intercalate_cons_cons, List.append_assoc, List.singleton_append,
            splitAt_append_mark own, inductionHypothesis others (by simp)]

theorem not_mem_of_mem_splitAt
    {mark : Char}
    {text piece : Text}
    (isPiece : piece ∈ splitAt mark text) :
    mark ∉ piece := by
  induction text generalizing piece with
  | nil =>
      rw [splitAt, List.mem_singleton] at isPiece
      simp [isPiece]
  | cons character rest inductionHypothesis =>
      unfold splitAt at isPiece
      split at isPiece
      · rcases List.mem_cons.mp isPiece with rfl | inRest
        · simp
        · exact inductionHypothesis inRest
      · rename_i different
        split at isPiece
        · rename_i first others parts
          rw [parts] at inductionHypothesis
          rcases List.mem_cons.mp isPiece with rfl | inRest
          · simp [Ne.symm different, inductionHypothesis List.mem_cons_self]
          · exact inductionHypothesis (List.mem_cons_of_mem _ inRest)
        · rename_i parts
          exact absurd parts (splitAt_ne_nil mark rest)

end Text

namespace Path

theorem toList_path
    (place : Place) :
    place.path.toList = '/' :: Text.joinWith ['/'] (place.map String.toList) := by
  simp [Place.path, Text.joinWith, String.toList_intercalate]

@[simp] theorem isAbsolute_path
    (place : Place) :
    isAbsolute place.path = true := by
  simp [isAbsolute, toList_path]

theorem path_ne_empty
    (place : Place) :
    place.path ≠ "" := by
  intro empty
  have absolute := isAbsolute_path place
  rw [empty] at absolute
  exact absurd absolute (by decide)

theorem unmarked_of_named
    {place : Place}
    (named : place.Named) :
    ∀ piece ∈ place.map String.toList, '/' ∉ piece := by
  intro piece isPiece
  obtain ⟨name, member, rfl⟩ := List.mem_map.mp isPiece
  exact (named name member).2.2.2

theorem map_ofList_toList
    (place : Place) :
    (place.map String.toList).map String.ofList = place := by
  simp [Function.comp_def]

/-- The names of the path of a place, after the empty one before the first slash. -/
theorem names_path
    {place : Place}
    (named : place.Named)
    (notRoot : place ≠ []) :
    names place.path = "" :: place := by
  unfold names
  rw [toList_path, Text.splitAt, if_pos rfl,
    Text.splitAt_joinWith (unmarked_of_named named) (by simpa using notRoot),
    List.map_cons, map_ofList_toList]

theorem foldl_cleanStep
    {rest : List String}
    (named : Place.Named rest)
    (absolute : Bool)
    (taken : List String) :
    rest.foldl (cleanStep absolute) taken = rest.reverse ++ taken := by
  induction rest generalizing taken with
  | nil =>
      rfl
  | cons name others inductionHypothesis =>
      obtain ⟨⟨notEmpty, notHere, notUp, _⟩, othersNamed⟩ := List.forall_mem_cons.mp named
      have kept : cleanStep absolute taken name = name :: taken := by
        simp [cleanStep, notEmpty, notHere, notUp]
      rw [List.foldl_cons, kept, inductionHypothesis othersNamed]
      simp

/-- Cleaning leaves the names of a named place. -/
theorem cleanNames_path
    {place : Place}
    (named : place.Named) :
    cleanNames place.path = place := by
  by_cases isRoot : place = []
  · subst isRoot
    decide
  · unfold cleanNames
    rw [names_path named isRoot, List.foldl_cons, cleanStep, if_pos (by simp),
      foldl_cleanStep named]
    simp

theorem named_cleanStep
    {taken : List String}
    (named : Place.Named taken)
    {name : String}
    (noSlash : '/' ∉ name.toList) :
    Place.Named (cleanStep true taken name) := by
  unfold cleanStep
  split
  · exact named
  · rename_i shown
    simp only [Bool.or_eq_true, decide_eq_true_eq, not_or] at shown
    split
    · cases taken with
      | nil =>
          exact named
      | cons last rest =>
          obtain ⟨lastName, restNamed⟩ := List.forall_mem_cons.mp named
          simp only [lastName.2.2.1, if_false]
          exact restNamed
    · rename_i notUp
      exact List.forall_mem_cons.mpr ⟨⟨shown.1, shown.2, notUp, noSlash⟩, named⟩

theorem not_mem_of_mem_names
    {path name : String}
    (isName : name ∈ names path) :
    '/' ∉ name.toList := by
  obtain ⟨text, isText, rfl⟩ := List.mem_map.mp isName
  rw [String.toList_ofList]
  exact Text.not_mem_of_mem_splitAt isText

/-- What is left of an absolute path after cleaning can be followed name by name. -/
theorem named_cleanNames
    {path : String}
    (absolute : isAbsolute path = true) :
    Place.Named (cleanNames path) := by
  have folded (pieces : List String) (noSlash : ∀ piece ∈ pieces, '/' ∉ piece.toList)
      (taken : List String) (named : Place.Named taken) :
      Place.Named (pieces.foldl (cleanStep true) taken) := by
    induction pieces generalizing taken with
    | nil =>
        exact named
    | cons piece rest inductionHypothesis =>
        obtain ⟨own, others⟩ := List.forall_mem_cons.mp noSlash
        exact inductionHypothesis others _ (named_cleanStep named own)
  unfold cleanNames
  rw [absolute]
  intro name member
  exact folded (names path) (fun _ => not_mem_of_mem_names) [] (List.forall_mem_nil _) name
    (List.mem_reverse.mp member)

theorem isAbsolute_join
    {base : String}
    (absolute : isAbsolute base = true)
    (path : String) :
    isAbsolute (join base path) = true := by
  have notEmpty : base ≠ "" := by
    rintro rfl
    exact absurd absolute (by decide)
  have appended (rest : String) : isAbsolute (base ++ rest) = true := by
    unfold isAbsolute at absolute ⊢
    rw [String.toList_append, List.head?_append]
    rw [beq_iff_eq] at absolute
    simp [absolute]
  have cleaned {whole : String} (isAbsolute' : isAbsolute whole = true) :
      isAbsolute (clean whole) = true := by
    unfold clean
    rw [if_pos isAbsolute', isAbsolute_path]
  unfold join
  simp only [notEmpty, decide_false, Bool.false_and, Bool.false_eq_true, if_false]
  split
  · exact cleaned absolute
  · rw [String.append_assoc]
    exact cleaned (appended _)

theorem named_place
    (workDir : Place)
    (path : String) :
    Place.Named (place workDir path) := by
  unfold place
  split
  · rename_i absolute
    exact named_cleanNames absolute
  · exact named_cleanNames (isAbsolute_join (isAbsolute_path workDir) path)

theorem place_path
    {place : Place}
    (named : place.Named)
    (workDir : Place) :
    Path.place workDir place.path = place := by
  unfold Path.place
  rw [if_pos (isAbsolute_path place), cleanNames_path named]

theorem base_path
    {parent : Place}
    {name : String}
    (named : Place.Named (parent ++ [name])) :
    base (Place.path (parent ++ [name])) = name := by
  have notEmpty : name ≠ "" := (named name (by simp)).1
  unfold base
  rw [names_path named (by simp)]
  simp [notEmpty]

theorem joinWith_concat
    {front : List Text}
    (some : front ≠ [])
    (last : Text) :
    Text.joinWith ['/'] (front ++ [last]) = Text.joinWith ['/'] front ++ '/' :: last := by
  unfold Text.joinWith
  induction front with
  | nil =>
      exact absurd rfl some
  | cons first rest inductionHypothesis =>
      cases rest with
      | nil =>
          simp [List.intercalate_cons_cons]
      | cons second others =>
          rw [List.intercalate_cons_cons, List.cons_append, List.cons_append,
            List.intercalate_cons_cons, ← List.cons_append, inductionHypothesis (by simp)]
          simp

theorem path_eq_slash_iff
    {place : Place}
    (named : place.Named) :
    place.path = "/" ↔ place = [] := by
  constructor
  · intro isSlash
    rw [← cleanNames_path named, isSlash]
    decide
  · rintro rfl
    decide

theorem path_concat
    {parent : Place}
    (named : parent.Named)
    (name : String) :
    Place.path (parent ++ [name]) =
      (if parent.path = "/" then "" else parent.path) ++ "/" ++ name := by
  apply String.toList_inj.mp
  by_cases isRoot : parent = []
  · rw [if_pos ((path_eq_slash_iff named).mpr isRoot), isRoot]
    simp [toList_path, Text.joinWith]
  · rw [if_neg ((path_eq_slash_iff named).not.mpr isRoot), toList_path, List.map_append,
      List.map_singleton, joinWith_concat (by simpa using isRoot)]
    simp [toList_path]

theorem parent_path
    {above : Place}
    {name : String}
    (named : Place.Named (above ++ [name])) :
    parent (Place.path (above ++ [name])) = above.path := by
  have aboveNamed : above.Named := fun other member => named other (List.mem_append_left _ member)
  let pieces : List String := "" :: above ++ [""]
  have unmarked : ∀ piece ∈ pieces.map String.toList, '/' ∉ piece := by
    intro piece isPiece
    simp only [pieces, List.cons_append, List.map_cons, List.map_append, List.map_nil,
      List.mem_cons, List.mem_append, List.not_mem_nil, or_false] at isPiece
    rcases isPiece with rfl | inAbove | rfl
    · simp
    · exact unmarked_of_named aboveNamed piece inAbove
    · simp
  have written : ("/".intercalate ("" :: above) ++ "/").toList =
      Text.joinWith ['/'] (pieces.map String.toList) := by
    rw [List.map_append, List.map_singleton, joinWith_concat (by simp)]
    simp [String.toList_intercalate, Text.joinWith]
  have pieceNames : names ("/".intercalate ("" :: above) ++ "/") = pieces := by
    unfold names
    rw [written, Text.splitAt_joinWith unmarked (by simp [pieces]), map_ofList_toList]
  have absolute : isAbsolute ("/".intercalate ("" :: above) ++ "/") = true := by
    unfold isAbsolute
    rw [written]
    cases above <;> simp [pieces, Text.joinWith, List.intercalate_cons_cons]
  have cleaned : cleanNames ("/".intercalate ("" :: above) ++ "/") = above := by
    unfold cleanNames
    have skipped (taken : List String) (absolute : Bool) : cleanStep absolute taken "" = taken := by
      simp [cleanStep]
    rw [pieceNames, List.foldl_append]
    simp [skipped, foldl_cleanStep aboveNamed]
  unfold parent
  rw [names_path named (by simp)]
  have reversed : ("" :: (above ++ [name])).reverse = name :: (above.reverse ++ [""]) := by
    simp
  rw [reversed]
  split
  · rename_i _ _ same
    simp at same
  · rename_i _ _ rest _ same
    obtain ⟨_, rfl⟩ := List.cons.inj same
    rw [List.reverse_append, List.reverse_reverse]
    change clean ("/".intercalate ("" :: above) ++ "/") = _
    unfold clean
    rw [if_pos absolute, cleaned]
  · rename_i same
    cases same

end Path

namespace Disk

/-- The name of a temporary file with a number beside a file. -/
def temporaryName
    (name : String)
    (number : Nat) :
    String :=
  "." ++ name ++ ".tmp-" ++ toString number

theorem temporaryPath_path
    {parent : Place}
    (named : parent.Named)
    (name : String)
    (number : Nat) :
    temporaryPath parent.path name number =
      Place.path (parent ++ [temporaryName name number]) := by
  rw [Path.path_concat named]
  unfold temporaryPath temporaryName
  simp [← String.toList_inj]

theorem isName_temporaryName
    {name : String}
    (isName : Path.IsName name)
    (number : Nat) :
    Path.IsName (temporaryName name number) := by
  have long : 6 ≤ (temporaryName name number).toList.length := by
    simp [temporaryName]
    omega
  have differs {other : String} (short : other.toList.length < 6) :
      temporaryName name number ≠ other := by
    intro same
    rw [same] at long
    omega
  refine ⟨differs (by decide), differs (by decide), differs (by decide), ?_⟩
  have noDigit : '/' ∉ Nat.toDigits 10 number := by
    intro isDigit
    exact absurd (Nat.isDigit_of_mem_toDigits (by decide) (by decide) isDigit) (by decide)
  simp [temporaryName, isName.2.2.2, Nat.toList_repr, noDigit]

theorem temporaryName_injective
    (name : String) :
    Function.Injective (temporaryName name) := by
  intro first second same
  have digits : Nat.toDigits 10 first = Nat.toDigits 10 second := by
    have sameList := congrArg String.toList same
    simpa [temporaryName, Nat.toList_repr] using sameList
  rw [← Nat.ofDigitChars_ten_toDigits (n := first), digits, Nat.ofDigitChars_ten_toDigits]

theorem stepTo_of_isName
    {name : String}
    (isName : Path.IsName name)
    (here : Place) :
    stepTo here name = here ++ [name] := by
  obtain ⟨notEmpty, notHere, notUp, _⟩ := isName
  simp [stepTo, notEmpty, notHere, notUp]

section

variable {root : Node} {toEnd : Bool} {jump : Place → String → List String → Except DiskCause Place}
  {here : Place} {name : String} {rest : List String}

/-- What a step does depends on what stands at the directory and at the next place. -/
theorem followNames_cons :
    followNames root toEnd jump here (name :: rest) =
      match root.kindAt? here with
      | none => .error .missing
      | some .directory =>
          match root.kindAt? (stepTo here name) with
          | some (.link target) =>
              if rest.isEmpty && !toEnd then .ok (stepTo here name) else jump here target rest
          | _ => followNames root toEnd jump (stepTo here name) rest
      | some _ => .error .notDirectory := by
  rw [followNames]
  unfold Node.kindAt?
  rcases root.get? here with _ | (_ | _ | _)
  · rfl
  · rfl
  · rfl
  · rcases root.get? (stepTo here name) with _ | (_ | _ | _) <;> rfl

/-- Only a directory is followed through. -/
theorem held_of_followNames_cons
    {reached : Place}
    (leads : followNames root toEnd jump here (name :: rest) = .ok reached) :
    root.kindAt? here = some .directory := by
  rw [followNames_cons] at leads
  split at leads
  · cases leads
  · assumption
  · cases leads

/-- Names are followed through a directory on to what is no link. -/
theorem followNames_cons_of_named
    (isName : Path.IsName name)
    (held : root.kindAt? here = some .directory)
    (plain : ∀ target, root.kindAt? (here ++ [name]) ≠ some (.link target)) :
    followNames root toEnd jump here (name :: rest) =
      followNames root toEnd jump (here ++ [name]) rest := by
  rw [followNames_cons, held, stepTo_of_isName isName]
  dsimp only
  split
  · rename_i target isLink
    exact absurd isLink (plain target)
  · rfl

/-- A last name leads one step on, unless a link there is followed. -/
theorem followNames_singleton
    (held : root.kindAt? here = some .directory)
    (plain : toEnd = true → ∀ target, root.kindAt? (stepTo here name) ≠ some (.link target)) :
    followNames root toEnd jump here [name] = .ok (stepTo here name) := by
  rw [followNames_cons, held]
  dsimp only
  split
  · rename_i target isLink
    cases toEnd with
    | false =>
        rfl
    | true =>
        exact absurd isLink (plain rfl target)
  · rw [followNames]

theorem followNames_append
    {above : List String}
    (named : Place.Named above)
    (held : root.kindAt? (here ++ above) = some .directory)
    (rest : List String) :
    followNames root toEnd jump here (above ++ rest) =
      followNames root toEnd jump (here ++ above) rest := by
  induction above generalizing here with
  | nil =>
      simp
  | cons name others inductionHypothesis =>
      obtain ⟨isName, othersNamed⟩ := List.forall_mem_cons.mp named
      have nextHeld : root.kindAt? (here ++ [name]) = some .directory := by
        cases others with
        | nil =>
            exact held
        | cons next more =>
            rw [List.append_cons] at held
            exact Node.kindAt?_of_append held
      have aheadHeld : root.kindAt? (here ++ [name] ++ others) = some .directory := by
        simpa using held
      rw [List.cons_append, followNames_cons_of_named isName (Node.kindAt?_of_append held)
        (by simp [nextHeld]), inductionHypothesis othersNamed aheadHeld]
      simp

/-- Names that lead somewhere without meeting a link lead through directories. -/
theorem held_of_followNames
    {above : List String}
    (named : Place.Named above)
    (plain : ∀ part, part <+: above → ∀ target, root.kindAt? (here ++ part) ≠ some (.link target))
    {reached : Place}
    (leads : followNames root toEnd jump here (above ++ [name]) = .ok reached) :
    root.kindAt? (here ++ above) = some .directory := by
  induction above generalizing here with
  | nil =>
      rw [List.append_nil]
      exact held_of_followNames_cons leads
  | cons next others inductionHypothesis =>
      obtain ⟨isName, othersNamed⟩ := List.forall_mem_cons.mp named
      have held := held_of_followNames_cons leads
      rw [List.cons_append, followNames_cons_of_named isName held
        (plain [next] (by simp))] at leads
      have below := inductionHypothesis othersNamed (fun part shorter target => by
        have own := plain (next :: part) (List.cons_prefix_cons.mpr ⟨rfl, shorter⟩) target
        simpa using own) leads
      simpa using below

theorem exists_followNames_eq
    (root : Node)
    (toEnd : Bool)
    (links : Nat) :
    ∃ jump, follow root toEnd links = followNames root toEnd jump := by
  cases links with
  | zero =>
      exact ⟨_, rfl⟩
  | succ links =>
      exact ⟨_, rfl⟩

end

/-- The path of a place is followed name by name from the root. -/
theorem resolve_path
    {disk : Disk}
    (ordered : disk.Ordered)
    {place : Place}
    (named : place.Named)
    (toEnd : Bool) :
    disk.resolve toEnd place.path = follow disk.root toEnd linkLimit [] place := by
  have rooted : disk.root.kindAt? [] = some .directory := ordered.rooted
  have stays (rest : List String) :
      follow disk.root toEnd linkLimit [] ("" :: rest) = follow disk.root toEnd linkLimit [] rest := by
    obtain ⟨jump, same⟩ := exists_followNames_eq disk.root toEnd linkLimit
    rw [same, followNames_cons, rooted]
    have here : stepTo [] "" = [] := by
      decide
    rw [here, rooted]
  unfold resolve
  rw [if_neg (Path.path_ne_empty _), if_pos (Path.isAbsolute_path _)]
  by_cases isRoot : place = []
  · have twoEmpty : Path.names (Place.path []) = ["", ""] := by
      decide
    rw [isRoot, twoEmpty, stays, stays]
  · rw [Path.names_path named isRoot, stays]

/-- The path of a place below a directory leads to that place, unless a link there is followed. -/
theorem resolve_concat
    {disk : Disk}
    (ordered : disk.Ordered)
    {parent : Place}
    {name : String}
    (named : Place.Named (parent ++ [name]))
    (held : disk.kindAt? parent = some .directory)
    {toEnd : Bool}
    (plain : toEnd = true → ∀ target, disk.kindAt? (parent ++ [name]) ≠ some (.link target)) :
    disk.resolve toEnd (Place.path (parent ++ [name])) = .ok (parent ++ [name]) := by
  have parentNamed : parent.Named := fun other member => named other (List.mem_append_left _ member)
  have isName : Path.IsName name := named name (by simp)
  have fromRoot : disk.root.kindAt? ([] ++ parent) = some .directory := held
  obtain ⟨jump, same⟩ := exists_followNames_eq disk.root toEnd linkLimit
  rw [resolve_path ordered named, same, followNames_append parentNamed fromRoot, List.nil_append]
  rw [← stepTo_of_isName isName parent] at plain ⊢
  exact followNames_singleton held plain

theorem placeOf_path
    {disk : Disk}
    (ordered : disk.Ordered)
    {parent : Place}
    {name : String}
    (named : Place.Named (parent ++ [name]))
    (held : disk.kindAt? parent = some .directory) :
    disk.placeOf (Place.path (parent ++ [name])) = .ok (parent ++ [name]) :=
  resolve_concat ordered named held (by simp)

theorem resolve_root
    {disk : Disk}
    (ordered : disk.Ordered)
    (toEnd : Bool) :
    disk.resolve toEnd (Place.path []) = .ok [] := by
  rw [resolve_path ordered (List.forall_mem_nil _)]
  obtain ⟨jump, same⟩ := exists_followNames_eq disk.root toEnd linkLimit
  rw [same, followNames]

/-- A path that leads somewhere without meeting a link leads through directories. -/
theorem held_of_resolve
    {disk : Disk}
    (ordered : disk.Ordered)
    {parent reached : Place}
    {name : String}
    (named : Place.Named (parent ++ [name]))
    (plain : disk.Plain parent)
    {toEnd : Bool}
    (leads : disk.resolve toEnd (Place.path (parent ++ [name])) = .ok reached) :
    disk.kindAt? parent = some .directory := by
  have parentNamed : parent.Named := fun other member => named other (List.mem_append_left _ member)
  obtain ⟨jump, same⟩ := exists_followNames_eq disk.root toEnd linkLimit
  rw [resolve_path ordered named, same] at leads
  have fromRoot : ∀ part, part <+: parent →
      ∀ target, disk.root.kindAt? ([] ++ part) ≠ some (.link target) := plain
  exact held_of_followNames parentNamed fromRoot leads

/-- The path of what stands at a place leads to it, when a link there is not followed. -/
theorem placeOf_of_kindAt?
    {disk : Disk}
    (ordered : disk.Ordered)
    {place : Place}
    {kind : Node.Kind}
    (found : disk.kindAt? place = some kind) :
    disk.placeOf place.path = .ok place := by
  rcases List.eq_nil_or_concat place with rfl | ⟨parent, name, rfl⟩
  · exact resolve_root ordered false
  · rw [List.concat_eq_append] at found ⊢
    exact placeOf_path ordered (ordered.named found) (Node.kindAt?_of_append found)

/-- Whatever stands at a place is the entry at its path. -/
theorem findEntry_path
    {disk : Disk}
    (ordered : disk.Ordered)
    {place : Place}
    {node : Node}
    (found : disk.root.get? place = some node) :
    disk.findEntry place.path = .ok node := by
  unfold findEntry
  rw [placeOf_of_kindAt? ordered (Node.kindAt?_of_get? found), nodeAt, found]

/-- The path of what is no link leads to it. -/
theorem find_path
    {disk : Disk}
    (ordered : disk.Ordered)
    {place : Place}
    {node : Node}
    (found : disk.root.get? place = some node)
    (noLink : ∀ target, node ≠ .link target) :
    disk.find place.path = .ok node := by
  unfold find targetOf
  rcases List.eq_nil_or_concat place with rfl | ⟨parent, name, rfl⟩
  · rw [resolve_root ordered, nodeAt]
    simp [found]
  · rw [List.concat_eq_append] at found ⊢
    have seen : disk.kindAt? (parent ++ [name]) = some node.kind := Node.kindAt?_of_get? found
    have plain (target : String) : disk.kindAt? (parent ++ [name]) ≠ some (.link target) := by
      intro isLink
      exact noLink target (Option.some.inj (found.symm.trans (Node.get?_of_kindAt?_link isLink)))
    rw [resolve_concat ordered (ordered.named seen) (Node.kindAt?_of_append seen) fun _ => plain,
      nodeAt]
    simp [found]

/-- A path on which no link is followed leads to its own place. -/
theorem eq_of_resolve_path
    {disk : Disk}
    (ordered : disk.Ordered)
    {place reached : Place}
    (named : place.Named)
    (plain : disk.Plain place.dropLast)
    {toEnd : Bool}
    (noLink : toEnd = true → ∀ target, disk.kindAt? place ≠ some (.link target))
    (leads : disk.resolve toEnd place.path = .ok reached) :
    reached = place := by
  rcases List.eq_nil_or_concat place with rfl | ⟨parent, name, rfl⟩
  · exact (Except.ok.inj ((resolve_root ordered toEnd).symm.trans leads)).symm
  · rw [List.concat_eq_append] at named plain noLink leads ⊢
    rw [List.dropLast_concat] at plain
    have held := held_of_resolve ordered named plain leads
    exact (Except.ok.inj ((resolve_concat ordered named held noLink).symm.trans leads)).symm

/-- Where something is found, it stands at the place that is reached. -/
theorem exists_place_of_nodeAt
    {disk : Disk}
    {reached : Except DiskCause Place}
    {node : Node}
    (found : disk.nodeAt reached = .ok node) :
    ∃ place, reached = .ok place ∧ disk.root.get? place = some node := by
  unfold nodeAt at found
  split at found
  · cases found
  · split at found
    · rename_i place _ other isOther
      exact ⟨place, rfl, isOther.trans (congrArg some (Except.ok.inj found))⟩
    · cases found

/-- Where a path leads to something through directories, that or a link to it is there. -/
theorem get?_of_find_path
    {disk : Disk}
    (ordered : disk.Ordered)
    {place : Place}
    (named : place.Named)
    (plain : disk.Plain place.dropLast)
    {node : Node}
    (found : disk.find place.path = .ok node) :
    disk.root.get? place = some node ∨ ∃ target, disk.root.get? place = some (.link target) := by
  cases isEntry : disk.root.get? place with
  | some entry =>
      cases entry with
      | link target =>
          exact .inr ⟨target, rfl⟩
      | file content mode =>
          rw [find_path ordered isEntry (by simp)] at found
          exact .inl (congrArg some (Except.ok.inj found))
      | directory entries =>
          rw [find_path ordered isEntry (by simp)] at found
          exact .inl (congrArg some (Except.ok.inj found))
  | none =>
      have absent : disk.kindAt? place = none := Option.map_eq_none_iff.mpr isEntry
      obtain ⟨reached, leads, isNode⟩ := exists_place_of_nodeAt found
      rw [eq_of_resolve_path ordered named plain (by simp [absent]) leads, isEntry] at isNode
      cases isNode

/-- Where no link is met, a path leads to something if something stands at its place. -/
theorem exists?_path
    {disk : Disk}
    (ordered : disk.Ordered)
    {place : Place}
    (named : place.Named)
    (plain : disk.Plain place) :
    disk.exists? place.path = (disk.kindAt? place).isSome := by
  have noLink (target : String) : disk.root.get? place ≠ some (.link target) := fun isLink =>
    plain place List.prefix_rfl target (Node.kindAt?_of_get? isLink)
  unfold exists?
  cases seen : disk.root.get? place with
  | some node =>
      have notLink (target : String) : node ≠ .link target := by
        rintro rfl
        exact noLink target seen
      rw [find_path ordered seen notLink, show disk.kindAt? place = some node.kind from
        Node.kindAt?_of_get? seen]
      rfl
  | none =>
      have absent : disk.kindAt? place = none := Option.map_eq_none_iff.mpr seen
      have plainAbove : disk.Plain place.dropLast := fun above shorter =>
        plain above (shorter.trans (List.dropLast_prefix place))
      rw [absent]
      cases found : disk.find place.path with
      | error cause =>
          rfl
      | ok node =>
          rcases get?_of_find_path ordered named plainAbove found with isNode | ⟨target, isLink⟩
          · rw [seen] at isNode
            cases isNode
          · exact absurd isLink (noLink target)

end Disk

end ScriptUplift
