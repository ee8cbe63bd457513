import Mathlib.Tactic.Common
import ScriptUplift.Proofs.DiskPath

namespace ScriptUplift

/-!
# What a path depends on

Following a path looks at the places it passes: the directories on its way, the links,
and what these lead to.  A change of the disk at any other place does not show, the path
reads the same.  The path of a regular file passes the directories above it and nothing
else.
-/

namespace Disk

/-- The places that are looked at when names are followed, as in `followNames`. -/
def passedNames
    (root : Node)
    (toEnd : Bool)
    (jump : Place → String → List String → List Place) :
    Place → List String → List Place
  | here, [] =>
      [here]
  | here, name :: rest =>
      here ::
        match root.kindAt? here with
        | some .directory =>
            match root.kindAt? (stepTo here name) with
            | some (.link target) =>
                stepTo here name :: if rest.isEmpty && !toEnd then [] else jump here target rest
            | _ => passedNames root toEnd jump (stepTo here name) rest
        | _ => []

/-- The places that are looked at when names are followed through a number of links. -/
def passed
    (root : Node)
    (toEnd : Bool) :
    Nat → Place → List String → List Place
  | 0 =>
      passedNames root toEnd fun _ _ _ => []
  | links + 1 =>
      passedNames root toEnd fun here target rest =>
        passed root toEnd links (if Path.isAbsolute target then [] else here)
          (Path.names target ++ rest)

/-- The places that are looked at when names are followed to the entry they lead to. -/
def entryWay
    (disk : Disk)
    (place : Place) :
    List Place :=
  passed disk.root false linkLimit [] place

/-- The places that are looked at when names are followed to an entry, and to where it leads. -/
def way
    (disk : Disk)
    (place : Place) :
    List Place :=
  disk.entryWay place ++ passed disk.root true linkLimit [] place

/-- The same stands at every place of a list. -/
def SameAt
    (places : List Place)
    (root other : Node) :
    Prop :=
  ∀ place ∈ places, other.kindAt? place = root.kindAt? place

section

variable {root other : Node} {toEnd : Bool}

theorem here_mem_passedNames
    (jump : Place → String → List String → List Place)
    (here : Place)
    (names : List String) :
    here ∈ passedNames root toEnd jump here names := by
  cases names <;> simp [passedNames]

/-- At a link, what follows is left to the jump. -/
theorem followNames_cons_link
    (jump : Place → String → List String → Except DiskCause Place)
    {here : Place}
    {name target : String}
    (held : root.kindAt? here = some .directory)
    (isLink : root.kindAt? (stepTo here name) = some (.link target))
    (rest : List String) :
    followNames root toEnd jump here (name :: rest) =
      if rest.isEmpty && !toEnd then .ok (stepTo here name) else jump here target rest := by
  rw [followNames_cons, held]
  dsimp only
  rw [isLink]

theorem passedNames_cons_link
    (passes : Place → String → List String → List Place)
    {here : Place}
    {name target : String}
    (held : root.kindAt? here = some .directory)
    (isLink : root.kindAt? (stepTo here name) = some (.link target))
    (rest : List String) :
    passedNames root toEnd passes here (name :: rest) =
      here :: stepTo here name :: if rest.isEmpty && !toEnd then [] else passes here target rest := by
  rw [passedNames, held]
  dsimp only
  rw [isLink]

/-- What is no link is followed on. -/
theorem followNames_cons_next
    (jump : Place → String → List String → Except DiskCause Place)
    {here : Place}
    {name : String}
    (held : root.kindAt? here = some .directory)
    (noLink : ∀ target, root.kindAt? (stepTo here name) ≠ some (.link target))
    (rest : List String) :
    followNames root toEnd jump here (name :: rest) =
      followNames root toEnd jump (stepTo here name) rest := by
  rw [followNames_cons, held]
  dsimp only
  split
  · rename_i target isLink
    exact absurd isLink (noLink target)
  · rfl

theorem passedNames_cons_next
    (passes : Place → String → List String → List Place)
    {here : Place}
    {name : String}
    (held : root.kindAt? here = some .directory)
    (noLink : ∀ target, root.kindAt? (stepTo here name) ≠ some (.link target))
    (rest : List String) :
    passedNames root toEnd passes here (name :: rest) =
      here :: passedNames root toEnd passes (stepTo here name) rest := by
  rw [passedNames, held]
  dsimp only
  split
  · rename_i target isLink
    exact absurd isLink (noLink target)
  · rfl

/-- Following names depends on the places that are looked at, if the jumps do. -/
theorem followNames_congr
    {jump otherJump : Place → String → List String → Except DiskCause Place}
    {passes otherPasses : Place → String → List String → List Place}
    (jumps : ∀ here target rest, SameAt (passes here target rest) root other →
      otherJump here target rest = jump here target rest ∧
        otherPasses here target rest = passes here target rest)
    {here : Place}
    {names : List String}
    (same : SameAt (passedNames root toEnd passes here names) root other) :
    followNames other toEnd otherJump here names = followNames root toEnd jump here names ∧
      passedNames other toEnd otherPasses here names =
        passedNames root toEnd passes here names := by
  induction names generalizing here with
  | nil =>
      exact ⟨rfl, rfl⟩
  | cons name rest inductionHypothesis =>
      have sameHere := same here (here_mem_passedNames _ _ _)
      by_cases held : root.kindAt? here = some .directory
      · have otherHeld := sameHere.trans held
        by_cases linked : ∃ target, root.kindAt? (stepTo here name) = some (.link target)
        · obtain ⟨target, isLink⟩ := linked
          rw [passedNames_cons_link passes held isLink] at same
          obtain ⟨_, sameNext⟩ := List.forall_mem_cons.mp same
          obtain ⟨sameLink, sameJump⟩ := List.forall_mem_cons.mp sameNext
          have otherLink := sameLink.trans isLink
          rw [followNames_cons_link _ held isLink, followNames_cons_link _ otherHeld otherLink,
            passedNames_cons_link _ held isLink, passedNames_cons_link _ otherHeld otherLink]
          by_cases stops : (rest.isEmpty && !toEnd) = true
          · simp only [stops, if_true, and_self]
          · simp only [stops, if_false, Bool.false_eq_true] at sameJump ⊢
            obtain ⟨jumpsAlike, passesAlike⟩ := jumps here target rest sameJump
            exact ⟨jumpsAlike, by rw [passesAlike]⟩
        · have noLink (target : String) :
              root.kindAt? (stepTo here name) ≠ some (.link target) :=
            fun isLink => linked ⟨target, isLink⟩
          rw [passedNames_cons_next passes held noLink] at same
          obtain ⟨_, sameNext⟩ := List.forall_mem_cons.mp same
          have otherNoLink (target : String) :
              other.kindAt? (stepTo here name) ≠ some (.link target) := by
            rw [sameNext _ (here_mem_passedNames _ _ _)]
            exact noLink target
          rw [followNames_cons_next _ held noLink, followNames_cons_next _ otherHeld otherNoLink,
            passedNames_cons_next _ held noLink, passedNames_cons_next _ otherHeld otherNoLink]
          obtain ⟨sameFollow, samePassed⟩ := inductionHypothesis sameNext
          exact ⟨sameFollow, by rw [samePassed]⟩
      · rw [followNames_cons, followNames_cons, passedNames, passedNames, sameHere]
        rcases seen : root.kindAt? here with _ | (_ | _ | _)
        · exact ⟨rfl, rfl⟩
        · exact ⟨rfl, rfl⟩
        · exact ⟨rfl, rfl⟩
        · exact absurd seen held

/-- Following names depends on the places that are looked at. -/
theorem follow_congr
    {links : Nat}
    {here : Place}
    {names : List String}
    (same : SameAt (passed root toEnd links here names) root other) :
    follow other toEnd links here names = follow root toEnd links here names ∧
      passed other toEnd links here names = passed root toEnd links here names := by
  induction links generalizing here names with
  | zero =>
      exact followNames_congr (fun _ _ _ _ => ⟨rfl, rfl⟩) same
  | succ links inductionHypothesis =>
      exact followNames_congr (fun _ _ _ sameJump => inductionHypothesis sameJump) same

theorem mem_passedNames_of_followNames
    {jump : Place → String → List String → Except DiskCause Place}
    {passes : Place → String → List String → List Place}
    {reached : Place}
    (jumps : ∀ here target rest, jump here target rest = .ok reached →
      reached ∈ passes here target rest)
    {here : Place}
    {names : List String}
    (leads : followNames root toEnd jump here names = .ok reached) :
    reached ∈ passedNames root toEnd passes here names := by
  induction names generalizing here with
  | nil =>
      obtain rfl := Except.ok.inj leads
      exact here_mem_passedNames _ _ _
  | cons name rest inductionHypothesis =>
      by_cases held : root.kindAt? here = some .directory
      · by_cases linked : ∃ target, root.kindAt? (stepTo here name) = some (.link target)
        · obtain ⟨target, isLink⟩ := linked
          rw [followNames_cons_link _ held isLink] at leads
          rw [passedNames_cons_link _ held isLink]
          refine List.mem_cons_of_mem _ ?_
          split at leads
          · obtain rfl := Except.ok.inj leads
            exact List.mem_cons_self
          · rename_i goesOn
            rw [if_neg goesOn]
            exact List.mem_cons_of_mem _ (jumps _ _ _ leads)
        · have noLink (target : String) :
              root.kindAt? (stepTo here name) ≠ some (.link target) :=
            fun isLink => linked ⟨target, isLink⟩
          rw [followNames_cons_next _ held noLink] at leads
          rw [passedNames_cons_next _ held noLink]
          exact List.mem_cons_of_mem _ (inductionHypothesis leads)
      · exact absurd (held_of_followNames_cons leads) held

/-- What names lead to is one of the places that are looked at. -/
theorem mem_passed_of_follow
    {links : Nat}
    {here : Place}
    {names : List String}
    {reached : Place}
    (leads : follow root toEnd links here names = .ok reached) :
    reached ∈ passed root toEnd links here names := by
  induction links generalizing here names with
  | zero =>
      refine mem_passedNames_of_followNames (fun _ _ _ never => ?_) leads
      cases never
  | succ links inductionHypothesis =>
      exact mem_passedNames_of_followNames (fun _ _ _ => inductionHypothesis) leads

theorem exists_kind_of_mem_passedNames
    {jump : Place → String → List String → Except DiskCause Place}
    {passes : Place → String → List String → List Place}
    {reached : Place}
    (there : ∃ kind, root.kindAt? reached = some kind)
    (jumps : ∀ here target rest, jump here target rest = .ok reached →
      ∀ place ∈ passes here target rest, ∃ kind, root.kindAt? place = some kind)
    {here : Place}
    {names : List String}
    (leads : followNames root toEnd jump here names = .ok reached) :
    ∀ place ∈ passedNames root toEnd passes here names, ∃ kind, root.kindAt? place = some kind := by
  induction names generalizing here with
  | nil =>
      obtain rfl := Except.ok.inj leads
      exact List.forall_mem_singleton.mpr there
  | cons name rest inductionHypothesis =>
      by_cases held : root.kindAt? here = some .directory
      · by_cases linked : ∃ target, root.kindAt? (stepTo here name) = some (.link target)
        · obtain ⟨target, isLink⟩ := linked
          rw [followNames_cons_link _ held isLink] at leads
          rw [passedNames_cons_link _ held isLink]
          refine List.forall_mem_cons.mpr ⟨⟨_, held⟩, List.forall_mem_cons.mpr ⟨⟨_, isLink⟩, ?_⟩⟩
          split at leads
          · rename_i stops
            rw [if_pos stops]
            exact List.forall_mem_nil _
          · rename_i goesOn
            rw [if_neg goesOn]
            exact jumps _ _ _ leads
        · have noLink (target : String) :
              root.kindAt? (stepTo here name) ≠ some (.link target) :=
            fun isLink => linked ⟨target, isLink⟩
          rw [followNames_cons_next _ held noLink] at leads
          rw [passedNames_cons_next _ held noLink]
          exact List.forall_mem_cons.mpr ⟨⟨_, held⟩, inductionHypothesis leads⟩
      · exact absurd (held_of_followNames_cons leads) held

/-- On the way to something there is something at every place. -/
theorem exists_kind_of_mem_passed
    {links : Nat}
    {here : Place}
    {names : List String}
    {reached : Place}
    (leads : follow root toEnd links here names = .ok reached)
    (there : ∃ kind, root.kindAt? reached = some kind) :
    ∀ place ∈ passed root toEnd links here names, ∃ kind, root.kindAt? place = some kind := by
  induction links generalizing here names with
  | zero =>
      refine exists_kind_of_mem_passedNames there (fun _ _ _ never => ?_) leads
      cases never
  | succ links inductionHypothesis =>
      exact exists_kind_of_mem_passedNames there (fun _ _ _ => inductionHypothesis) leads

end

/-- What stands where a path leads to. -/
def kindFound
    (disk : Disk)
    (path : String) :
    Except DiskCause Node.Kind :=
  (disk.find path).map Node.kind

theorem kindFound_path
    {disk : Disk}
    (ordered : disk.Ordered)
    {place : Place}
    (named : place.Named) :
    disk.kindFound place.path =
      match follow disk.root true linkLimit [] place with
      | .error cause => .error cause
      | .ok reached =>
          match disk.kindAt? reached with
          | some kind => .ok kind
          | none => .error .missing := by
  unfold kindFound find targetOf kindAt? Node.kindAt?
  rw [resolve_path ordered named]
  cases follow disk.root true linkLimit [] place with
  | error cause =>
      rfl
  | ok reached =>
      unfold nodeAt
      dsimp only
      cases disk.root.get? reached <;> rfl

theorem readText_eq
    (disk : Disk)
    (path : String) :
    disk.readText path =
      match disk.kindFound path with
      | .error cause => .error (.disk ⟨"open", path, cause⟩)
      | .ok (.file (.text text) _) => .ok text
      | .ok (.file _ _) => .error (.notText path)
      | .ok _ => .error (.disk ⟨"read", path, .isDirectory⟩) := by
  unfold kindFound readText read
  rcases disk.find path with _ | (⟨_ | _ | _, _⟩ | _ | _) <;> rfl

theorem modeFor_eq
    (disk : Disk)
    (path : String) :
    disk.modeFor path =
      match disk.kindFound path with
      | .ok (.file _ mode) => mode
      | _ => defaultMode := by
  unfold kindFound modeFor file?
  rcases disk.find path with _ | (_ | _ | _) <;> rfl

/-- What a script reads as depends on what its path leads to. -/
theorem readText_congr
    {disk other : Disk}
    {path : String}
    (same : other.kindFound path = disk.kindFound path) :
    other.readText path = disk.readText path := by
  rw [readText_eq, readText_eq, same]

theorem modeFor_congr
    {disk other : Disk}
    {path : String}
    (same : other.kindFound path = disk.kindFound path) :
    other.modeFor path = disk.modeFor path := by
  rw [modeFor_eq, modeFor_eq, same]

/-- A disk on which the same stands at the places a path passes reads the same there. -/
theorem kindFound_congr
    {disk other : Disk}
    (ordered : disk.Ordered)
    (otherOrdered : other.Ordered)
    {place : Place}
    (named : place.Named)
    (same : ∀ passed ∈ disk.way place, other.kindAt? passed = disk.kindAt? passed) :
    other.kindFound place.path = disk.kindFound place.path ∧
      other.way place = disk.way place := by
  obtain ⟨sameEntry, sameEnd⟩ := List.forall_mem_append.mp same
  obtain ⟨_, sameEntryWay⟩ := follow_congr sameEntry
  obtain ⟨sameFollow, samePassed⟩ := follow_congr sameEnd
  rw [kindFound_path ordered named, kindFound_path otherOrdered named, sameFollow]
  refine ⟨?_, congrArg₂ (· ++ ·) sameEntryWay samePassed⟩
  cases leads : follow disk.root true linkLimit [] place with
  | error cause =>
      rfl
  | ok reached =>
      dsimp only
      rw [sameEnd reached (mem_passed_of_follow leads)]

end Disk

end ScriptUplift
