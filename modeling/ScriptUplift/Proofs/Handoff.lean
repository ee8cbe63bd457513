import Mathlib.Data.List.Basic
import Mathlib.Tactic.Common
import ScriptUplift.Pipeline
import ScriptUplift.Proofs.Knowledge
import ScriptUplift.Proofs.OrphanVerdicts

namespace ScriptUplift

/-!
# Hand-off between stages

A file is consistent when its indentation unit is settled and a recomputation
of what is known about its lines changes nothing.  Classification establishes
consistency from any file; uplift, indentation repair and orphan repair keep it,
whether or not they take the path on which they recompute.
-/

namespace IndentUnit

/-- Every step taken after a block opener is positive. -/
theorem pos_of_mem_steps
    {statements : List Opening}
    {step : Nat}
    (member : step ∈ steps statements) :
    0 < step := by
  fun_induction steps statements with
  | case1 first second rest grows inductionHypothesis =>
      simp only [Bool.and_eq_true, decide_eq_true_eq] at grows
      rcases List.mem_cons.mp member with rfl | inRest
      · exact Nat.sub_pos_of_lt grows.2
      · exact inductionHypothesis inRest
  | case2 first second rest flat inductionHypothesis =>
      exact inductionHypothesis member
  | case3 =>
      simp at member

theorem preferredStep_eq_or
    (all : List Nat)
    (first second : Nat) :
    preferredStep all first second = first ∨ preferredStep all first second = second := by
  unfold preferredStep
  split
  · exact .inr rfl
  · split
    · exact .inl rfl
    · omega

theorem foldl_preferredStep_mem
    (all rest : List Nat)
    (first : Nat) :
    rest.foldl (preferredStep all) first ∈ first :: rest := by
  induction rest generalizing first with
  | nil =>
      simp
  | cons second others inductionHypothesis =>
      have chosen := inductionHypothesis (preferredStep all first second)
      rw [List.foldl_cons]
      rcases List.mem_cons.mp chosen with isPreferred | inOthers
      · rw [isPreferred]
        rcases preferredStep_eq_or all first second with isFirst | isSecond
        · simp [isFirst]
        · simp [isSecond]
      · simp [inOthers]

theorem mem_of_commonStep?
    {all : List Nat}
    {step : Nat}
    (found : commonStep? all = some step) :
    step ∈ all := by
  cases all with
  | nil =>
      simp [commonStep?] at found
  | cons first rest =>
      simp only [commonStep?, Option.some.injEq] at found
      rw [← found]
      exact foldl_preferredStep_mem (first :: rest) rest first

/-- Detection settles the unit. -/
theorem detect_settled
    (texts : List Text) :
    (detect texts).isUnsettled = false := by
  unfold detect
  dsimp only
  split
  · rfl
  · split
    · rename_i step found
      have positive := pos_of_mem_steps (mem_of_commonStep? found)
      simp only [spaces, isUnsettled, Bool.not_false, Bool.true_and, beq_eq_false_iff_ne]
      omega
    · rfl

end IndentUnit

namespace Source

/-- A file whose unit is settled and whose lines are known as their texts say. -/
structure Consistent
    (source : Source) :
    Prop where
  settled : source.unit.isUnsettled = false
  fresh : refreshLines source.unit source.lines = source.lines

namespace Consistent

/-- Consistency is about the unit and the lines only. -/
theorem of_same
    {before after : Source}
    (consistent : before.Consistent)
    (sameUnit : after.unit = before.unit)
    (sameLines : after.lines = before.lines) :
    after.Consistent where
  settled := by
    rw [sameUnit]
    exact consistent.settled
  fresh := by
    rw [sameUnit, sameLines]
    exact consistent.fresh

/-- A consistent file is left alone by recomputation. -/
theorem refresh_eq
    {source : Source}
    (consistent : source.Consistent) :
    source.refresh = source := by
  unfold refresh
  simp only [consistent.settled, Bool.false_eq_true, if_false, consistent.fresh]

end Consistent

theorem refresh_settled
    (source : Source) :
    source.refresh.unit.isUnsettled = false := by
  unfold refresh
  dsimp only
  split
  · exact IndentUnit.detect_settled _
  · rename_i settled
    simpa using settled

/-- Recomputation makes a file consistent. -/
theorem refresh_consistent
    (source : Source) :
    source.refresh.Consistent where
  settled := source.refresh_settled
  fresh := refreshLines_refreshLines _ _

theorem classifyStage_consistent
    (style : IndentUnit.Style)
    (width : Int)
    (source : Source) :
    (source.classifyStage style width).Consistent :=
  refresh_consistent _

/-- A rule that matches is followed by recomputation, and one that does not changes nothing. -/
theorem Consistent.applyEverywhere
    {source : Source}
    (consistent : source.Consistent)
    (rule : UpliftRule) :
    (source.applyEverywhere rule).Consistent := by
  unfold Source.applyEverywhere
  dsimp only
  split
  · exact consistent
  · exact refresh_consistent _

/-- Uplift keeps a file consistent. -/
theorem Consistent.upliftStage
    {source : Source}
    (consistent : source.Consistent)
    (rules : List UpliftRule) :
    (source.upliftStage rules).Consistent := by
  unfold Source.upliftStage
  have registered : (source.register (rules.map (·.name))).Consistent :=
    consistent.of_same rfl rfl
  generalize source.register (rules.map (·.name)) = current at registered
  induction rules generalizing current with
  | nil =>
      exact registered
  | cons rule rest inductionHypothesis =>
      exact inductionHypothesis _ (registered.applyEverywhere rule)

end Source

namespace Indent

/-- Repair keeps what is known about every line. -/
theorem repairLines_known
    (unit : IndentUnit)
    (frames : List Frame)
    (shift : Int)
    (lines : List Line) :
    (repairLines unit frames shift lines).map Line.known = lines.map Line.known := by
  unfold repairLines
  rw [List.map_map]
  refine (List.forall₂_eq_eq_eq ▸ ?_ : lines.map Line.known = _).symm
  rw [List.forall₂_map_left_iff, List.forall₂_map_right_iff]
  refine (planLines_scoped frames shift lines).imp fun line planned sameLine => ?_
  rw [Function.comp_apply, PlannedLine.moved, sameLine]
  rfl

@[simp] theorem length_repairLines
    (unit : IndentUnit)
    (frames : List Frame)
    (shift : Int)
    (lines : List Line) :
    (repairLines unit frames shift lines).length = lines.length := by
  simpa using congrArg List.length (repairLines_known unit frames shift lines)

/-- Versions of the same lines have no changed line exactly when they have the same texts. -/
theorem changedLines_eq_zero_iff
    {before after : List Line}
    (sameLength : before.length = after.length) :
    changedLines before after = 0 ↔ after.map (·.text) = before.map (·.text) := by
  induction before generalizing after with
  | nil =>
      have empty : after = [] := by
        simpa using sameLength.symm
      rw [empty]
      simp [changedLines]
  | cons line rest inductionHypothesis =>
      cases after with
      | nil =>
          simp at sameLength
      | cons changed others =>
          have restIff := inductionHypothesis (by simpa using sameLength : rest.length = others.length)
          unfold changedLines at restIff ⊢
          rw [List.zip_cons_cons, List.countP_cons, List.map_cons, List.map_cons, List.cons.injEq,
            ← restIff]
          by_cases sameText : changed.text = line.text
          · simp [sameText]
          · simp [sameText, Ne.symm sameText]

end Indent

namespace Source

/-- Indentation repair keeps a file consistent: without a changed text the scopes alone differ. -/
theorem Consistent.indentStage
    {source : Source}
    (consistent : source.Consistent) :
    source.indentStage.Consistent := by
  unfold Source.indentStage
  dsimp only
  split
  · rename_i unchanged
    refine ⟨consistent.settled, ?_⟩
    exact refreshLines_eq_of_same consistent.fresh
      ((Indent.changedLines_eq_zero_iff (by simp)).mp unchanged)
      (Indent.repairLines_known _ _ _ _)
  · exact refresh_consistent _

/-- Orphan repair keeps a file consistent: the marks it sets are gone when it ends. -/
theorem Consistent.orphanStage
    {source : Source}
    (consistent : source.Consistent)
    (wrapperName : String) :
    (source.orphanStage wrapperName).Consistent := by
  cases runs : (Orphan.verdictsOf wrapperName source.lines).any (·.isRun) with
  | false =>
      have kept := orphanStage_of_no_run runs
      exact consistent.of_same kept.unit kept.lines
  | true =>
      have resolved := orphanStage_of_run consistent.settled runs
      constructor
      · rw [resolved.unit]
        exact consistent.settled
      · rw [resolved.unit, resolved.lines]
        exact refreshLines_refreshLines _ _

end Source

namespace Stage

/-- The stages before member order, under every setting. -/
inductive HandsOff : Stage → Prop
  | classify (style : String) (width : Int) :
      HandsOff (.classify style width)
  | uplift (disabled : List String) :
      HandsOff (.uplift (UpliftRule.enabled disabled))
  | indent :
      HandsOff .indent
  | orphan (wrapperName : String) :
      HandsOff (.orphan wrapperName)

/-- One stage succeeds and hands over a consistent file. -/
theorem HandsOff.run_consistent
    {stage : Stage}
    (handsOff : stage.HandsOff)
    {source : Source}
    (consistent : source.Consistent) :
    ∃ result, stage.run source = (result, .done) ∧ result.Consistent := by
  cases handsOff with
  | classify style width =>
      exact ⟨_, rfl, Source.classifyStage_consistent _ width source⟩
  | uplift disabled =>
      exact ⟨_, rfl, consistent.upliftStage _⟩
  | indent =>
      exact ⟨_, rfl, consistent.indentStage⟩
  | orphan wrapperName =>
      exact ⟨_, rfl, consistent.orphanStage wrapperName⟩

end Stage

namespace Pipeline

/-- A run of stages that starts from a consistent file succeeds and ends in one. -/
theorem runStages_consistent
    (path : String)
    {stages : List Stage}
    (handsOff : ∀ stage ∈ stages, stage.HandsOff)
    {source : Source}
    (consistent : source.Consistent) :
    (runStages path stages source).2 = .done ∧
      (runStages path stages source).1.Consistent := by
  induction stages generalizing source with
  | nil =>
      exact ⟨rfl, consistent⟩
  | cons stage rest inductionHypothesis =>
      obtain ⟨result, ran, resultConsistent⟩ :=
        (handsOff stage (by simp)).run_consistent consistent
      have restHandsOff : ∀ stage ∈ rest, stage.HandsOff := by
        intro other member
        exact handsOff other (by simp [member])
      simp only [runStages, ran]
      exact inductionHypothesis restHandsOff resultConsistent

/--
After every stage of a run that starts with classification, what is known about
the lines is what a recomputation from the texts and the unit finds.
-/
theorem knowledge_fresh_after_each_stage
    (style : String)
    (width : Int)
    (rest : List Stage)
    (handsOff : ∀ stage ∈ rest, stage.HandsOff)
    (counters : List String)
    (path : String)
    (content : Text)
    (after : Nat) :
    let ran := run ⟨.classify style width :: rest.take after, counters⟩ path content
    ran.2 = .done ∧
      ran.1.unit.isUnsettled = false ∧
      refreshLines ran.1.unit ran.1.lines = ran.1.lines ∧
      ran.1.refresh = ran.1 := by
  intro ran
  have restHandsOff : ∀ stage ∈ rest.take after, stage.HandsOff := by
    intro stage member
    exact handsOff stage (List.mem_of_mem_take member)
  have classified : ((Source.ofContent path content).register counters).classifyStage
      (.ofName style) width |>.Consistent :=
    Source.classifyStage_consistent _ _ _
  obtain ⟨done, consistent⟩ := runStages_consistent path restHandsOff classified
  exact ⟨done, consistent.settled, consistent.fresh, consistent.refresh_eq⟩

/-- Repairs in an unusual order, with a rule switched off, hand over a fresh file each time. -/
theorem knowledge_fresh_after_orphan_before_indent :
    let rest : List Stage :=
      [.orphan "", .indent, .uplift (UpliftRule.enabled ["tool_directive_rewrite"]), .orphan ""]
    (∀ stage ∈ rest, stage.HandsOff) ∧
      let ran := run ⟨.classify "auto" 4 :: rest.take 3, []⟩ "x.gd"
        "x = 5\nonready var a\n".toList
      ran.2 = .done ∧
        ran.1.unit.isUnsettled = false ∧
        refreshLines ran.1.unit ran.1.lines = ran.1.lines ∧
        ran.1.refresh = ran.1 := by
  have handsOff : ∀ stage ∈ ([.orphan "", .indent,
      .uplift (UpliftRule.enabled ["tool_directive_rewrite"]), .orphan ""] : List Stage),
      stage.HandsOff := by
    intro stage member
    simp only [List.mem_cons, List.not_mem_nil, or_false] at member
    rcases member with rfl | rfl | rfl | rfl
    · exact .orphan ""
    · exact .indent
    · exact .uplift ["tool_directive_rewrite"]
    · exact .orphan ""
  exact ⟨handsOff, knowledge_fresh_after_each_stage "auto" 4 _ handsOff [] "x.gd" _ 3⟩

end Pipeline

end ScriptUplift
