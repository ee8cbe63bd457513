import Mathlib.Tactic.Common
import ScriptUplift.Proofs.Completion
import ScriptUplift.Proofs.StandingLines
import ScriptUplift.Proofs.WordIndentation

namespace ScriptUplift

/-!
# Runs on a machine

On a machine a stage may break down over whitespace that is too long, and then it
leaves nothing.  Apart from that a pipeline does on a machine what it does without
a bound.  Repair never moves a line by more levels than the file has lines, and
the runs that are wrapped stand at the margin, so that no stage breaks down when
the machine has room for as many levels as there are lines.
-/

namespace Indent

/-- A move asks for no more than a number of levels. -/
def Move.Within
    (levels : Nat) : Move → Prop
  | .stay => True
  | .indent depth => depth ≤ levels
  | .shift count => count ≤ levels

/-- A machine with room for the levels of a move does not break down over it. -/
theorem Move.breakdown?_eq_none
    {unit : IndentUnit}
    {levels : Nat}
    (held : unit.Holds levels)
    (heldOne : unit.Holds 1)
    {move : Move}
    (within : move.Within levels)
    (text : Text) :
    move.breakdown? unit text = none := by
  cases move with
  | stay =>
      rfl
  | indent depth =>
      rw [breakdown?, IndentUnit.wordReindent_eq (held.mono within)]
      rfl
  | shift count =>
      have room : unit.Holds count.toNat :=
        held.mono (Int.toNat_le.mpr within)
      rw [breakdown?, IndentUnit.wordShift_eq room fun _ => heldOne]
      rfl

/-- Every line below a header takes one level at most, so that the lines bound all moves. -/
theorem planLines_within
    {levels : Nat}
    {frames : List Frame}
    (nested : Nested frames)
    {shift : Int}
    (shifted : shift ≤ levels)
    {lines : List Line}
    (bound : frames.length + lines.length ≤ levels) :
    ∀ planned ∈ planLines frames shift lines, planned.move.Within levels := by
  fun_induction planLines frames shift lines with
  | case1 =>
      simp
  | case2 frames shift line rest continues inductionHypothesis =>
      rw [List.length_cons] at bound
      rw [List.forall_mem_cons]
      refine ⟨?_, inductionHypothesis nested shifted (by omega)⟩
      dsimp only
      split
      · exact shifted
      · trivial
  | case3 frames shift line rest starts trivia inductionHypothesis =>
      rw [List.length_cons] at bound
      rw [List.forall_mem_cons]
      exact ⟨trivial, inductionHypothesis nested shifted (by omega)⟩
  | case4 frames shift line rest starts code around target inside inductionHypothesis =>
      rw [List.length_cons] at bound
      have fewer : target ≤ frames.length :=
        (nested.around line).bodyDepthOf_eq.le.trans (length_around_le frames line)
      have oneMore : inside.length ≤ frames.length + 1 := by
        have length := length_inside frames line
        have outer := length_around_le frames line
        have atMost : (if line.opens then 1 else 0) ≤ 1 := by
          split <;> decide
        exact (length ▸ Nat.add_le_add outer atMost : (Indent.inside frames line).length ≤ _)
      rw [List.forall_mem_cons]
      exact ⟨fewer.trans (by omega),
        inductionHypothesis (nested.inside line) (by omega) (by omega)⟩

end Indent

namespace Source

/-- A machine with room for a level for each line does not break down over repair. -/
theorem indentBreakdown?_eq_none
    {source : Source}
    (held : source.unit.Holds source.lines.length) :
    source.indentBreakdown? = none := by
  unfold indentBreakdown?
  rw [List.findSome?_eq_none_iff]
  intro planned isPlanned
  have nested : Indent.Nested [] := trivial
  have within := Indent.planLines_within nested (Int.natCast_nonneg source.lines.length)
    (Nat.zero_add _).le planned isPlanned
  have someLine : 1 ≤ source.lines.length := by
    cases lines : source.lines with
    | nil =>
        rw [lines] at isPlanned
        cases isPlanned
    | cons line rest =>
        simp
  exact planned.move.breakdown?_eq_none held (held.mono someLine) within _

/-- A machine with room for a level for each line breaks down over no run of the repaired file. -/
theorem Consistent.orphanBreakdown?_eq_none
    {source : Source}
    (consistent : source.Consistent)
    (wrapperName : String)
    (held : source.unit.Holds source.lines.length) :
    source.indentStage.orphanBreakdown? wrapperName = none := by
  unfold orphanBreakdown?
  rw [List.findSome?_eq_none_iff]
  intro verdict decided
  rw [List.mem_reverse] at decided
  cases verdict with
  | keep tracked =>
      rfl
  | suppress members =>
      rfl
  | wrap name members =>
      -- A run begins with a stranded statement, which stands at the margin of a repaired file.
      obtain ⟨lead, isSeed, leads, first⟩ :=
        Segment.exists_lead_of_mem_cut (Orphan.run_mem_of_isRun decided rfl)
      obtain ⟨line, isLine, rfl⟩ := List.mem_map.mp isSeed
      obtain ⟨border, below, standing, sound⟩ :=
        consistent.standing_indentStage.exists_border (Indent.Border.sound_top _) isLine
      have atMargin : line.depth = 0 :=
        (standing.margin_of_leadsIn sound leads).2.1
      have headerDepth : Orphan.Verdict.leadDepth members = 0 := by
        have first : members.head? = some (seedLine line).markOrphan := first
        simp [Orphan.Verdict.leadDepth, first, seedLine, atMargin]
      have room : source.indentStage.unit.Holds 1 := by
        rw [unit_indentStage consistent]
        refine held.mono ?_
        have sameLength : source.indentStage.lines.length = source.lines.length := by
          rw [lines_indentStage consistent]
          exact (length_readLines _ _ _).trans (Indent.length_repairLines _ _ _ _)
        exact sameLength ▸ List.length_pos_of_mem isLine
      have flat : source.indentStage.unit.wordLead (0 : Nat) = .ok [] := rfl
      have level := IndentUnit.wordLead_eq room
      simp only [Orphan.Verdict.breakdown?, headerDepth, flat, Breakdown.of?, Option.none_or]
      split
      · rfl
      · rw [show (1 : Int) = (1 : Nat) from rfl, level]

end Source

namespace Pipeline

/-- Stages on a machine end as they do without a bound, or one of them breaks down. -/
theorem runStages_onMachine
    (path : String)
    (stages : List Stage)
    (source : Source) :
    runStages path (stages.map Stage.onMachine) source = runStages path stages source ∨
      ∃ breakdown : Breakdown,
        (runStages path (stages.map Stage.onMachine) source).2 = .crashed breakdown.message := by
  induction stages generalizing source with
  | nil =>
      exact .inl rfl
  | cons stage rest inductionHypothesis =>
      simp only [List.map_cons, runStages, Stage.onMachine]
      cases broken : stage.breakdown? source with
      | some breakdown =>
          exact .inr ⟨breakdown, rfl⟩
      | none =>
          dsimp only
          cases ran : stage.run source with
          | mk result ending =>
              cases ending with
              | done =>
                  exact inductionHypothesis result
              | failed fault =>
                  exact .inl rfl
              | crashed message =>
                  exact .inl rfl

/-- A run on a machine ends as it does without a bound, or breaks down. -/
theorem run_onMachine
    (pipeline : Pipeline)
    (path : String)
    (content : Text) :
    pipeline.onMachine.run path content = pipeline.run path content ∨
      ∃ breakdown : Breakdown,
        (pipeline.onMachine.run path content).2 = .crashed breakdown.message :=
  runStages_onMachine path pipeline.stages _

/-- A machine goes on with what a stage leaves that does not break down. -/
theorem runStages_onMachine_cons
    {path : String}
    {stage : Stage}
    {source result : Source}
    (whole : stage.breakdown? source = none)
    (done : stage.run source = (result, .done))
    (rest : List Stage) :
    runStages path ((stage :: rest).map Stage.onMachine) source =
      runStages path (rest.map Stage.onMachine) result := by
  simp only [List.map_cons, runStages, Stage.onMachine, whole, done]

/-- A run on a machine that has room for a level for each line ends with the migrated file. -/
theorem run_onMachine_eq_migrated
    {config : Config}
    {pipeline : Pipeline}
    (accepted : ofConfig config = .ok pipeline)
    {path : String}
    {content : Text}
    (held : (uplifted config path content).unit.Holds (uplifted config path content).lines.length) :
    pipeline.onMachine.run path content = (migrated config path content, .done) := by
  have consistent := uplifted_consistent config path content
  have indents := Source.indentBreakdown?_eq_none held
  have wraps := consistent.orphanBreakdown?_eq_none config.wrapperName held
  have repairs (rest : List Stage) :
      runStages path
          (([Stage.classify config.indentStyle config.indentWidth,
            .uplift (UpliftRule.enabled config.disabledRules),
            .indent,
            .orphan config.wrapperName] ++ rest).map Stage.onMachine)
          (opened config path content) =
        runStages path (rest.map Stage.onMachine) (repaired config path content) := by
    simp only [List.cons_append, List.nil_append]
    rw [runStages_onMachine_cons rfl rfl, runStages_onMachine_cons rfl rfl,
      runStages_onMachine_cons indents rfl, runStages_onMachine_cons wraps rfl]
    rfl
  have ordered :
      (if config.canonical then [Stage.canonicalize] else []).map Stage.onMachine =
        if config.canonical then [.canonicalize] else [] := by
    split <;> rfl
  rw [← run_eq_migrated accepted path content, eq_of_ofConfig_eq_ok accepted]
  calc
    (onMachine ⟨stagesOf config, countersOf config⟩).run path content
      = runStages path (if config.canonical then [.canonicalize] else [])
          (repaired config path content) :=
        (repairs _).trans (by rw [ordered])
    _ = run ⟨stagesOf config, countersOf config⟩ path content :=
        rfl

/--
A pipeline of known rules never fails on a machine, and a run that gets to its end
leaves no orphan.  It gets there when the machine has room for a level of
indentation for each line that enters repair; with less room the whitespace of a
level may be too long to be written.  Member order by itself is refused exactly
for an orphan, with a precondition fault on the file, and then every line and
every counter stays.
-/
theorem run_completes_within_room_and_refusal_changes_nothing :
    (∀ (config : Config) (path : String) (content : Text),
      (∀ name ∈ config.disabledRules, ∃ rule : UpliftRule, rule.name = name) →
        ∃ pipeline,
          ofConfig config = .ok pipeline ∧
            ((uplifted config path content).unit.Holds
                (uplifted config path content).lines.length →
              (pipeline.onMachine.run path content).2 = .done) ∧
            (∀ fault, (pipeline.onMachine.run path content).2 ≠ .failed fault) ∧
            ((pipeline.onMachine.run path content).2 = .done →
              ∀ line ∈ (pipeline.onMachine.run path content).1.lines,
                line.category ≠ .orphan)) ∧
      ∀ source : Source,
        (source.canonicalStage.2.isSome = true ↔
            ∃ line ∈ source.lines, line.category = .orphan) ∧
          ∀ fault, source.canonicalStage.2 = some fault →
            (∃ cause,
                fault = .onFile .precondition source.path cause ∧ cause.isContract = true) ∧
              source.canonicalStage.1.lines = source.lines ∧
              ∀ name value,
                source.report.counters.get? name = some value →
                  source.canonicalStage.1.report.counters.get? name = some value := by
  refine ⟨?_, ?_⟩
  · intro config path content known
    have accepted := ofConfig_eq_ok known
    refine ⟨_, accepted, ?_, ?_, ?_⟩
    · intro held
      rw [run_onMachine_eq_migrated accepted held]
    · intro fault failed
      rcases run_onMachine ⟨stagesOf config, countersOf config⟩ path content with
        same | ⟨breakdown, crashed⟩
      · rw [same, run_eq_migrated accepted] at failed
        cases failed
      · rw [crashed] at failed
        cases failed
    · intro done line member
      rcases run_onMachine ⟨stagesOf config, countersOf config⟩ path content with
        same | ⟨breakdown, crashed⟩
      · rw [same, run_eq_migrated accepted] at member
        exact category_ne_orphan_of_mem_migrated member
      · rw [crashed] at done
        cases done
  · intro source
    refine ⟨source.canonicalStage_refuses_iff, ?_⟩
    intro fault refused
    obtain ⟨⟨details, blamed⟩, registered⟩ := Source.canonicalStage_refusal refused
    refine ⟨⟨_, blamed, rfl⟩, ?_, ?_⟩
    · rw [registered]
      rfl
    · intro name value present
      rw [registered]
      exact Tally.get?_register_of_some _ present

/-- A method whose body is to be indented by one level. -/
def oneLevel : Text :=
  "func f():\n\tpass\n".toList

/-- A body goes in by two spaces; a stranded line is refused with its counters. -/
theorem run_completes_within_room_by_two_spaces :
    let config : Config :=
      { disabledRules := ["suspension_rewrite"], indentStyle := "space", indentWidth := 2 }
    (∀ name ∈ config.disabledRules, ∃ rule : UpliftRule, rule.name = name) ∧
      (uplifted config "a.gd" oneLevel).unit.Holds (uplifted config "a.gd" oneLevel).lines.length ∧
      (∃ pipeline,
        ofConfig config = .ok pipeline ∧ (pipeline.onMachine.run "a.gd" oneLevel).2 = .done) ∧
      ∃ fault,
        Source.canonicalStage
            { path := "a.gd"
              lines := [{ number := 7, text := "x = 5".toList, category := .orphan }]
              report := ⟨⟨[("orphan_wrap", 2)]⟩, []⟩ } =
          (⟨"a.gd", [{ number := 7, text := "x = 5".toList, category := .orphan }],
              ⟨⟨[("orphan_wrap", 2), ("member_reorder", 0)]⟩, []⟩, .unsettled, [], false, false,
              false⟩,
            some fault) ∧
        fault.kind = .precondition := by
  intro config
  have known : ∀ name ∈ config.disabledRules, ∃ rule : UpliftRule, rule.name = name := by
    intro name member
    exact ⟨.suspension, (List.mem_singleton.mp member).symm⟩
  have held :
      (uplifted config "a.gd" oneLevel).unit.Holds
        (uplifted config "a.gd" oneLevel).lines.length := by
    unfold IndentUnit.Holds
    decide +kernel
  refine ⟨known, held, ?_, ?_⟩
  · obtain ⟨pipeline, accepted, done, _⟩ :=
      run_completes_within_room_and_refusal_changes_nothing.1 config "a.gd" oneLevel known
    exact ⟨pipeline, accepted, done held⟩
  · let stranded : Source :=
      { path := "a.gd"
        lines := [{ number := 7, text := "x = 5".toList, category := .orphan }]
        report := ⟨⟨[("orphan_wrap", 2)]⟩, []⟩ }
    have refused : stranded.canonicalStage.2.isSome = true :=
      (run_completes_within_room_and_refusal_changes_nothing.2 stranded).1.mpr
        ⟨_, List.mem_singleton.mpr rfl, rfl⟩
    obtain ⟨fault, isFault⟩ := Option.isSome_iff_exists.mp refused
    obtain ⟨⟨cause, blamed, _⟩, _⟩ :=
      (run_completes_within_room_and_refusal_changes_nothing.2 stranded).2 fault isFault
    refine ⟨fault, Prod.ext rfl isFault, ?_⟩
    rw [blamed]
    rfl

/-- A level of 2 ^ 62 spaces, which the configuration allows, is more than a machine writes. -/
theorem run_breaks_down_over_one_level :
    let config : Config := { indentStyle := "space", indentWidth := 2 ^ 62 }
    config.fault? = none ∧ config.disabledRules = [] ∧
      ∃ pipeline,
        ofConfig config = .ok pipeline ∧
          (pipeline.onMachine.run "a.gd" oneLevel).2 = .crashed Breakdown.tooLong.message := by
  intro config
  exact ⟨by decide, rfl, _, rfl, by decide +kernel⟩

end Pipeline

end ScriptUplift
