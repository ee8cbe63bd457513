import Mathlib.Data.List.Nodup
import Mathlib.Data.List.Perm.Subperm
import Mathlib.Tactic.Common
import ScriptUplift.Proofs.OrphanTexts
import ScriptUplift.Proofs.RunMembers
import ScriptUplift.Proofs.UpliftTrace

namespace ScriptUplift

/-!
# Names of wrapper methods

A wrapper gets the base name or the first numbered variant of it that is not
taken.  The variants differ from each other, so that a free one is among the
first few.  A name that is given away is taken for the runs below.  Method
headers of a repaired file are never lines of a run, which leaves the names of
all methods to be seen when the search begins.
-/

namespace Orphan

/-- The names that are tried for a wrapper, in order. -/
def candidateName
    (base : Text) : Nat → Text
  | 0 =>
      base
  | tries + 1 =>
      numberedName base (tries + 2)

theorem numberedName_injective
    (base : Text) :
    Function.Injective (numberedName base) := by
  intro first second same
  unfold numberedName at same
  have digits : (toString first).toList = (toString second).toList :=
    (List.cons.inj (List.append_cancel_left same)).2
  have numbers := congrArg (fun characters => Nat.ofDigitChars 10 characters 0) digits
  simpa [Nat.toString_eq_ofList_toDigits] using numbers

theorem numberedName_ne
    (base : Text)
    (number : Nat) :
    numberedName base number ≠ base := by
  unfold numberedName
  simp

theorem candidateName_injective
    (base : Text) :
    Function.Injective (candidateName base) := by
  intro first second same
  cases first with
  | zero =>
      cases second with
      | zero =>
          rfl
      | succ other =>
          exact absurd same.symm (numberedName_ne base (other + 2))
  | succ number =>
      cases second with
      | zero =>
          exact absurd same (numberedName_ne base (number + 2))
      | succ other =>
          have numbers : number + 2 = other + 2 := numberedName_injective base same
          omega

/-- A name is the first of the candidates that is not taken, and there are enough of them. -/
def FirstFree
    (base : Text)
    (taken : List Text)
    (name : Text) :
    Prop :=
  ∃ tries ≤ taken.length,
    name = candidateName base tries ∧ name ∉ taken ∧
      ∀ earlier < tries, candidateName base earlier ∈ taken

/-- As many candidates as are taken one after the other, so many names are taken. -/
theorem le_length_of_taken
    {base : Text}
    {taken : List Text}
    {tries : Nat}
    (blocked : ∀ earlier < tries, candidateName base earlier ∈ taken) :
    tries ≤ taken.length := by
  have distinct : ((List.range tries).map (candidateName base)).Nodup :=
    List.nodup_range.map (candidateName_injective base)
  have among : (List.range tries).map (candidateName base) ⊆ taken := by
    intro name member
    obtain ⟨earlier, before, rfl⟩ := List.mem_map.mp member
    exact blocked earlier (List.mem_range.mp before)
  simpa using (distinct.subperm among).length_le

/-- The search among numbered names passes over taken ones until it finds a free one. -/
theorem exists_freshNumberedName
    (base : Text)
    (taken : List Text)
    (number : Nat) :
    ∃ passed,
      freshNumberedName base taken number = numberedName base (number + passed) ∧
        numberedName base (number + passed) ∉ taken ∧
          ∀ earlier < passed, numberedName base (number + earlier) ∈ taken := by
  fun_induction freshNumberedName base taken number with
  | case1 taken number collision inductionHypothesis =>
      obtain ⟨passed, found, free, blocked⟩ := inductionHypothesis
      have shifted (count : Nat) : number + 1 + count = number + (count + 1) := by
        omega
      -- The later names differ from the one that was erased.
      have differs (count : Nat) :
          numberedName base (number + (count + 1)) ≠ numberedName base number := by
        intro same
        have numbers := numberedName_injective base same
        omega
      refine ⟨passed + 1, ?_, ?_, ?_⟩
      · rw [found, shifted]
      · rw [shifted, List.mem_erase_of_ne (differs passed)] at free
        exact free
      · intro earlier before
        cases earlier with
        | zero =>
            exact collision
        | succ count =>
            have member := blocked count (by omega)
            rw [shifted] at member
            exact List.mem_of_mem_erase member
  | case2 taken number free =>
      exact ⟨0, rfl, free, fun _ impossible => absurd impossible (Nat.not_lt_zero _)⟩

/-- The search for a name ends, and with the first candidate that is free. -/
theorem firstFree_freshName
    (base : Text)
    (taken : List Text) :
    FirstFree base taken (freshName base taken) := by
  unfold freshName
  split
  · rename_i collision
    obtain ⟨passed, found, free, blocked⟩ := exists_freshNumberedName base taken 2
    have earlierTaken : ∀ earlier < passed + 1, candidateName base earlier ∈ taken := by
      intro earlier before
      cases earlier with
      | zero =>
          exact List.contains_iff_mem.mp collision
      | succ count =>
          rw [candidateName, Nat.add_comm count 2]
          exact blocked count (by omega)
    refine ⟨passed + 1, le_length_of_taken earlierTaken, ?_, ?_, earlierTaken⟩
    · rw [found, candidateName, Nat.add_comm]
    · rw [found]
      exact free
  · rename_i free
    exact ⟨0, Nat.zero_le _, rfl, fun member => free (List.contains_iff_mem.mpr member),
      fun _ impossible => absurd impossible (Nat.not_lt_zero _)⟩

theorem freshName_not_mem
    (base : Text)
    (taken : List Text) :
    freshName base taken ∉ taken := by
  obtain ⟨_, _, _, free, _⟩ := firstFree_freshName base taken
  exact free

/-- The name of the wrapper a verdict adds. -/
def Verdict.wrapperName? : Verdict → Option Text
  | .wrap name _ => some name
  | _ => none

/-- The names of the wrappers that verdicts add, in order. -/
def wrapperNames
    (verdicts : List Verdict) :
    List Text :=
  verdicts.filterMap (·.wrapperName?)

theorem length_wrapperNames
    (verdicts : List Verdict) :
    (wrapperNames verdicts).length = verdicts.countP (·.isWrap) := by
  induction verdicts with
  | nil =>
      rfl
  | cons verdict rest inductionHypothesis =>
      cases verdict with
      | keep tracked | suppress members =>
          exact inductionHypothesis
      | wrap name members =>
          rw [List.countP_cons_of_pos rfl, ← inductionHypothesis]
          rfl

/-- Wrappers are named apart from each other and from every name that is taken. -/
theorem wrapperNames_decideAll
    (base : Text)
    (taken : List Text)
    (segments : List Segment) :
    (wrapperNames (decideAll base taken segments)).Nodup ∧
      ∀ name ∈ wrapperNames (decideAll base taken segments), name ∉ taken := by
  fun_induction decideAll base taken segments with
  | case1 taken =>
      exact ⟨.nil, fun _ impossible => absurd impossible List.not_mem_nil⟩
  | case2 taken tracked rest inductionHypothesis =>
      exact inductionHypothesis
  | case3 taken members rest safe name inductionHypothesis =>
      obtain ⟨distinct, apart⟩ := inductionHypothesis
      have ownApart : name ∉ wrapperNames (decideAll base (name :: taken) rest) :=
        fun member => apart name member List.mem_cons_self
      refine ⟨List.nodup_cons.mpr ⟨ownApart, distinct⟩, ?_⟩
      refine List.forall_mem_cons.mpr ⟨freshName_not_mem base taken, ?_⟩
      exact fun other member isTaken => apart other member (List.mem_cons_of_mem _ isTaken)
  | case4 taken members rest risky inductionHypothesis =>
      exact inductionHypothesis

end Orphan

namespace Indent

/-- A method header of lines that stand is no line a run can take in. -/
theorem Standing.isTakenIn_of_isMethod
    {border : Border}
    {line : Line}
    {rest : List Line}
    (standing : Standing border (line :: rest))
    (sound : border.Sound)
    (method : line.category.isMethod = true) :
    line.isTakenIn = false := by
  have notOther : line.category ≠ .other := by
    rintro other
    rw [other] at method
    cases method
  have noTrivia : line.category.isTrivia = false := by
    generalize line.category = category at method
    cases category <;> first | rfl | cases method
  have starts : line.continues = false := by
    have own := standing.own
    rw [← own]
    cases neutral : border.carry.isNeutral with
    | true =>
        simp [Line.readIn, neutral]
    | false =>
        refine absurd ?_ notOther
        rw [← own]
        simp [Line.readIn, neutral]
  have statement : line.isStatement = true := by
    simp [Line.isStatement, starts, noTrivia]
  have snaps : snapsToClass line = true := by
    rw [snapsToClass, method, Bool.or_true, Bool.true_or]
  unfold Line.isTakenIn
  rw [noTrivia, Bool.and_false, Bool.or_false, Bool.eq_false_iff]
  intro joins
  rw [standing.snapsToClass_of_joinsRun sound statement joins] at snaps
  cases snaps

end Indent

namespace Orphan

/-- The names of all methods of a file in repair are seen when its runs are decided about. -/
theorem namesOfMethods_segmentsOf
    {unit : IndentUnit}
    {lines : List Line}
    (standing : Indent.Standing (.top unit) lines) :
    namesOfMethods (((segmentsOf lines).flatMap (·.members)).map (·.line)) =
      namesOfMethods lines := by
  have byView (others : List Line) :
      namesOfMethods others = (others.map fun line =>
        if line.category.isMethod then methodName? (identifiers line.code) else none).filterMap
          id := by
    unfold namesOfMethods
    rw [List.filterMap_filter, List.filterMap_map]
    rfl
  rw [byView, byView, List.map_map]
  refine congrArg (List.filterMap id) ?_
  unfold segmentsOf
  rw [Segment.map_view_cut, List.drop_zero, List.map_map]
  · rfl
  · rintro seed isSeed takenIn
    obtain ⟨line, isLine, rfl⟩ := List.mem_map.mp isSeed
    obtain ⟨above, below, standingHere, sound⟩ :=
      standing.exists_border (Indent.Border.sound_top unit) isLine
    have noMethod : line.category.isMethod = false := by
      rw [Bool.eq_false_iff]
      intro method
      have never := standingHere.isTakenIn_of_isMethod sound method
      exact absurd (never.symm.trans takenIn) Bool.false_ne_true
    have seedNoMethod : (seedLine line).line.category.isMethod = false := noMethod
    have orphanNoMethod : Category.orphan.isMethod = false := rfl
    unfold Tracked.markOrphan
    split
    · simp [orphanNoMethod, seedNoMethod]
    · rfl

/-- The code of the header of a wrapper names the wrapper. -/
theorem dropIndentation_wrapperHeader
    (unit : IndentUnit)
    (depth : Nat)
    (name : Text) :
    (wrapperHeader unit depth name).text.dropIndentation = headerCode name := by
  have shape : (wrapperHeader unit depth name).text = unit.lead depth ++ headerCode name := by
    simp [wrapperHeader, headerCode]
  rw [shape]
  exact (unit.sameCode_lead_append depth (headerCode name)).symm

/-- The lines without a number that verdicts leave are the headers of their wrappers. -/
theorem headers_of_verdicts
    (unit : IndentUnit)
    {verdicts : List Verdict}
    (numbered : ∀ member ∈ verdicts.flatMap Verdict.members, member.line.number ≠ 0) :
    ((((verdicts.flatMap (·.lines unit)).map (·.line.entry)).filter (·.1 == 0)).map
        (·.2.dropIndentation)) =
      (wrapperNames verdicts).map headerCode := by
  induction verdicts with
  | nil =>
      rfl
  | cons verdict rest inductionHypothesis =>
      rw [List.flatMap_cons, List.forall_mem_append] at numbered
      have noneNumbered :
          ((verdict.members.map (verdict.treat unit)).map (·.line.entry)).filter (·.1 == 0) =
            [] := by
        rw [List.filter_eq_nil_iff]
        intro entry member
        rw [List.map_map] at member
        obtain ⟨tracked, isMember, rfl⟩ := List.mem_map.mp member
        simpa [Line.entry] using numbered.1 tracked isMember
      rw [List.flatMap_cons, List.map_append, List.filter_append, List.map_append,
        inductionHypothesis numbered.2, Verdict.lines_eq, List.map_append, List.filter_append,
        noneNumbered, List.append_nil]
      cases verdict with
      | keep tracked =>
          rfl
      | suppress members =>
          rfl
      | wrap name members =>
          exact congrArg (· :: (wrapperNames rest).map headerCode)
            (dropIndentation_wrapperHeader unit _ name)

end Orphan

namespace Source

/--
Names of wrappers never collide: whatever is taken, the search for a name ends
with the first candidate that is free, after no more collisions than there are
names; every safe run of a repaired file gets a name of its own; none of them is
the name of a method of the file; and the lines that orphan repair adds are the
headers that carry these names, in order.
-/
theorem wrapper_names_never_collide
    (style : IndentUnit.Style)
    (width : Int)
    (rules : List UpliftRule)
    (path : String)
    (content : Text)
    (wrapperName : String) :
    let before :=
      (((ofContent path content).classifyStage style width).upliftStage rules).indentStage
    let after := before.orphanStage wrapperName
    let names := Orphan.wrapperNames (Orphan.verdictsOf wrapperName before.lines)
    (∀ base taken, Orphan.FirstFree base taken (Orphan.freshName base taken)) ∧
      names.length = (Orphan.segmentsOf before.lines).countP (·.isSafe) ∧
      names.Nodup ∧
      (∀ name ∈ names, name ∉ Orphan.namesOfMethods before.lines) ∧
      (after.lines.filter (·.number == 0)).map (·.text.dropIndentation) =
        names.map Orphan.headerCode := by
  intro before after names
  have repaired := (classifyStage_consistent style width (ofContent path content)).upliftStage rules
  have consistent : before.Consistent := repaired.indentStage
  have carried : Carried (ofContent path content).lines before.lines before.report.counters :=
    (((Carried.ofContent path content []).of_continues
      (refreshLines_continues _ _)).upliftStage rules).indentStage
  have numbered := carried.number_ne_zero fun _ => number_ne_zero_of_mem_ofContent
  have membersNumbered :
      ∀ member ∈ (Orphan.verdictsOf wrapperName before.lines).flatMap Orphan.Verdict.members,
        member.line.number ≠ 0 := by
    intro member isMember
    obtain ⟨line, isLine, sameNumber, _⟩ :=
      exists_left_of_forall₂ (Orphan.verdictsOf_members wrapperName before.lines) isMember
    rw [sameNumber]
    exact numbered line isLine
  obtain ⟨distinct, apart⟩ := Orphan.wrapperNames_decideAll (Orphan.baseName wrapperName)
    (Orphan.namesOfMethods (((Orphan.segmentsOf before.lines).flatMap (·.members)).map (·.line)))
    (Orphan.segmentsOf before.lines)
  have sameNames := Orphan.namesOfMethods_segmentsOf repaired.standing_indentStage
  refine ⟨Orphan.firstFree_freshName, ?_, distinct, ?_, ?_⟩
  · rw [← Orphan.countP_isWrap_verdictsOf wrapperName]
    exact Orphan.length_wrapperNames _
  · intro name member isMethod
    refine apart name member ?_
    rw [sameNames]
    exact isMethod
  · have headers := Orphan.headers_of_verdicts before.unit membersNumbered
    have entries := consistent.entries_orphanStage wrapperName
    rw [Orphan.resolvedLines, List.map_map] at entries
    rw [show (fun tracked : Tracked => tracked.line.entry) =
      Line.entry ∘ fun tracked => tracked.line from rfl, ← entries, List.filter_map,
      List.map_map] at headers
    exact headers

end Source

end ScriptUplift
