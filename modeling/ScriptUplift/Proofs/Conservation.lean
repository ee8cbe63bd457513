import Mathlib.Data.List.Nodup
import Mathlib.Data.List.Range
import Mathlib.Tactic.Common
import ScriptUplift.Proofs.Completion
import ScriptUplift.Proofs.LineEndings
import ScriptUplift.Proofs.UpliftEngine

namespace ScriptUplift

/-!
# No line of code is lost

Every line that is read with code ends on a line with code under its number.
The lines without a number are the separators of member order and the headers of
wrapper methods, which are counted.  Without a split by a field rule every
number stands on one line, and without any match of a rule the line is the one
that was read, moved sideways or commented out once.

The stages are followed by two invariants: `Carried` up to indentation repair
and `Resolved` from orphan repair on.
-/

/-- One line carries on the number and the code of another one. -/
def Line.Continues
    (before after : Line) :
    Prop :=
  after.number = before.number ∧ before.text.SameCode after.text

/-- Recomputed lines carry on the lines they were. -/
theorem refreshLines_continues
    (unit : IndentUnit)
    (lines : List Line) :
    List.Forall₂ Line.Continues lines (refreshLines unit lines) := by
  have paired :
      List.Forall₂ Eq (lines.map Line.identity) ((refreshLines unit lines).map Line.identity) := by
    rw [refreshLines_identity, List.forall₂_same]
    exact fun _ _ => rfl
  rw [List.forall₂_map_left_iff, List.forall₂_map_right_iff] at paired
  refine paired.imp ?_
  intro before after same
  exact ⟨(congrArg Identity.number same).symm,
    congrArg Text.dropIndentation (congrArg Identity.text same)⟩

theorem numbers_of_continues
    {before after : List Line}
    (continued : List.Forall₂ Line.Continues before after) :
    after.map (·.number) = before.map (·.number) := by
  induction continued with
  | nil =>
      rfl
  | cons holds _ inductionHypothesis =>
      rw [List.map_cons, List.map_cons, inductionHypothesis, holds.1]

/-- The field rules, which alone split a line, counted nothing. -/
def Tally.NoSplit
    (counters : Tally) :
    Prop :=
  ∀ rule : UpliftRule, rule.splits = true → counters.count rule.name = 0

/-- No rule counted anything. -/
def Tally.NoMatch
    (counters : Tally) :
    Prop :=
  ∀ rule : UpliftRule, counters.count rule.name = 0

theorem Tally.NoSplit.of_counts
    {before after : Tally}
    (noSplit : after.NoSplit)
    (sameRules : ∀ rule : UpliftRule, after.count rule.name = before.count rule.name) :
    before.NoSplit := by
  intro rule splits
  rw [← sameRules rule]
  exact noSplit rule splits

theorem Tally.NoMatch.of_counts
    {before after : Tally}
    (noMatch : after.NoMatch)
    (sameRules : ∀ rule : UpliftRule, after.count rule.name = before.count rule.name) :
    before.NoMatch := by
  intro rule
  rw [← sameRules rule]
  exact noMatch rule

/-- How the lines that were read are found again before orphan repair. -/
structure Carried
    (origin lines : List Line)
    (counters : Tally) :
    Prop where
  kept :
    ∀ line ∈ origin, line.text.isBlank = false →
      ∃ out ∈ lines, out.number = line.number ∧ out.text.isBlank = false
  numbered :
    ∀ out ∈ lines, ∃ line ∈ origin, out.number = line.number
  single :
    counters.NoSplit → (lines.map (·.number)).Nodup
  sameCode :
    counters.NoMatch → ∀ line ∈ origin, ∀ out ∈ lines,
      out.number = line.number → line.text.SameCode out.text
  tallied :
    ∀ name, 0 ≤ counters.count name
  unwrapped :
    counters.count Orphan.wrapCounter = 0

namespace Carried

/-- Lines that are carried on are still found again. -/
theorem of_continues
    {origin before after : List Line}
    {counters : Tally}
    (carried : Carried origin before counters)
    (continued : List.Forall₂ Line.Continues before after) :
    Carried origin after counters where
  kept := by
    intro line isLine visible
    obtain ⟨out, isOut, sameNumber, outVisible⟩ := carried.kept line isLine visible
    obtain ⟨later, isLater, laterNumber, laterCode⟩ := exists_right_of_forall₂ continued isOut
    refine ⟨later, isLater, laterNumber.trans sameNumber, ?_⟩
    rw [← laterCode.isBlank_eq, outVisible]
  numbered := by
    intro later isLater
    obtain ⟨out, isOut, laterNumber, _⟩ := exists_left_of_forall₂ continued isLater
    obtain ⟨line, isLine, sameNumber⟩ := carried.numbered out isOut
    exact ⟨line, isLine, laterNumber.trans sameNumber⟩
  single := by
    intro noSplit
    rw [numbers_of_continues continued]
    exact carried.single noSplit
  sameCode := by
    intro noMatch line isLine later isLater laterLine
    obtain ⟨out, isOut, laterNumber, laterCode⟩ := exists_left_of_forall₂ continued isLater
    have outLine : out.number = line.number := laterNumber.symm.trans laterLine
    exact (carried.sameCode noMatch line isLine out isOut outLine).trans laterCode
  tallied := carried.tallied
  unwrapped := carried.unwrapped

/-- Before orphan repair every line has the number of a line that was read. -/
theorem number_ne_zero
    {origin lines : List Line}
    {counters : Tally}
    (carried : Carried origin lines counters)
    (fromOne : ∀ line ∈ origin, line.number ≠ 0) :
    ∀ out ∈ lines, out.number ≠ 0 := by
  intro out isOut
  obtain ⟨line, isLine, sameNumber⟩ := carried.numbered out isOut
  rw [sameNumber]
  exact fromOne line isLine

/-- Counts that concern no rule and no wrapper change nothing about the lines. -/
theorem of_counts
    {origin lines : List Line}
    {before after : Tally}
    (carried : Carried origin lines before)
    (sameRules : ∀ rule : UpliftRule, after.count rule.name = before.count rule.name)
    (sameWrap : after.count Orphan.wrapCounter = before.count Orphan.wrapCounter)
    (tallied : ∀ name, 0 ≤ after.count name) :
    Carried origin lines after where
  kept := carried.kept
  numbered := carried.numbered
  single := fun noSplit => carried.single (noSplit.of_counts sameRules)
  sameCode := fun noMatch => carried.sameCode (noMatch.of_counts sameRules)
  tallied := tallied
  unwrapped := sameWrap.trans carried.unwrapped

theorem register
    {origin lines : List Line}
    {counters : Tally}
    (carried : Carried origin lines counters)
    (names : List String) :
    Carried origin lines (counters.register names) :=
  carried.of_counts (by simp) (by simp) (by simpa using carried.tallied)

/-- Counting what no rule and no wrapper did changes nothing about the lines. -/
theorem add
    {origin lines : List Line}
    {counters : Tally}
    (carried : Carried origin lines counters)
    {name : String}
    (noRule : ∀ rule : UpliftRule, rule.name ≠ name)
    (noWrap : Orphan.wrapCounter ≠ name)
    (amount : Nat) :
    Carried origin lines (counters.add name amount) := by
  refine carried.of_counts ?_ ?_ ?_
  · intro rule
    simp [noRule rule]
  · simp [noWrap]
  · intro other
    have before := carried.tallied other
    rw [Tally.count_add]
    split <;> omega

/-- A match of a rule leaves each line under its number, and owns up to what it split or changed. -/
theorem applyToEach
    {origin lines : List Line}
    {counters : Tally}
    (carried : Carried origin lines counters)
    (rule : UpliftRule)
    {total : Nat}
    (matched : 0 < total) :
    Carried origin ((ScriptUplift.applyToEach rule [] lines).flatMap Prod.fst)
      (counters.add rule.name total) where
  kept := by
    intro line isLine visible
    obtain ⟨out, isOut, sameNumber, outVisible⟩ := carried.kept line isLine visible
    obtain ⟨result, isResult, above, rfl⟩ :=
      exists_right_of_forall₂ (applyToEach_forall₂ rule [] lines) isOut
    obtain ⟨left, isLeft, leftVisible⟩ := exists_visible_mem_applyToLine rule above outVisible
    refine ⟨left, List.mem_flatMap.mpr ⟨_, isResult, isLeft⟩, ?_, leftVisible⟩
    rw [number_of_mem_applyToLine isLeft, sameNumber]
  numbered := by
    intro left isLeft
    obtain ⟨result, isResult, among⟩ := List.mem_flatMap.mp isLeft
    obtain ⟨out, isOut, above, rfl⟩ :=
      exists_left_of_forall₂ (applyToEach_forall₂ rule [] lines) isResult
    obtain ⟨line, isLine, sameNumber⟩ := carried.numbered out isOut
    refine ⟨line, isLine, ?_⟩
    rw [number_of_mem_applyToLine among, sameNumber]
  single := by
    intro noSplit
    have unsplit : counters.NoSplit := by
      intro other splits
      have before := carried.tallied other.name
      have after := noSplit other splits
      rw [Tally.count_add] at after
      split at after <;> omega
    -- A rule that may split a line has counted, which the assumption rules out.
    cases splits : rule.splits with
    | false =>
        rw [numbers_applyToEach_of_not_splits splits]
        exact carried.single unsplit
    | true =>
        have before := carried.tallied rule.name
        have after := noSplit rule splits
        rw [Tally.count_add, if_pos rfl] at after
        omega
  sameCode := by
    intro noMatch
    have before := carried.tallied rule.name
    have after := noMatch rule
    rw [Tally.count_add, if_pos rfl] at after
    omega
  tallied := by
    intro other
    have before := carried.tallied other
    rw [Tally.count_add]
    split <;> omega
  unwrapped := by
    have apart : Orphan.wrapCounter ≠ rule.name := by
      cases rule <;> decide
    simpa [apart] using carried.unwrapped

/-- One rule keeps the lines found again. -/
theorem applyEverywhere
    {origin : List Line}
    {source : Source}
    (carried : Carried origin source.lines source.report.counters)
    (rule : UpliftRule) :
    Carried origin (source.applyEverywhere rule).lines
      (source.applyEverywhere rule).report.counters := by
  rcases source.applyEverywhere_cases rule with ⟨_, same⟩ | ⟨total, matched, changed⟩
  · rw [same]
    exact carried
  · rw [changed]
    exact (carried.applyToEach rule matched).of_continues (refreshLines_continues _ _)

/-- The rules, one after the other, keep the lines found again. -/
theorem upliftStage
    {origin : List Line}
    {source : Source}
    (carried : Carried origin source.lines source.report.counters)
    (rules : List UpliftRule) :
    Carried origin (source.upliftStage rules).lines
      (source.upliftStage rules).report.counters := by
  unfold Source.upliftStage
  -- The invariant holds after registration and is carried through the fold, rule by rule.
  have registered :
      Carried origin (source.register (rules.map (·.name))).lines
        (source.register (rules.map (·.name))).report.counters :=
    carried.register _
  generalize source.register (rules.map (·.name)) = current at registered
  induction rules generalizing current with
  | nil =>
      exact registered
  | cons rule rest inductionHypothesis =>
      exact inductionHypothesis _ (registered.applyEverywhere rule)

/-- Indentation repair keeps the lines found again. -/
theorem indentStage
    {origin : List Line}
    {source : Source}
    (carried : Carried origin source.lines source.report.counters) :
    Carried origin source.indentStage.lines source.indentStage.report.counters := by
  have repaired :=
    (carried.register [Indent.repairCounter]).of_continues
      (Indent.repairLines_sameCode source.unit [] 0 source.lines)
  have noRule : ∀ rule : UpliftRule, rule.name ≠ Indent.repairCounter := by
    intro rule
    cases rule <;> decide
  unfold Source.indentStage
  dsimp only
  split
  · exact repaired
  · exact (repaired.add noRule (by decide) _).of_continues (refreshLines_continues _ _)

end Carried

/-- A file that is read is found again in itself. -/
theorem Carried.ofContent
    (path : String)
    (content : Text)
    (names : List String) :
    Carried (Source.ofContent path content).lines (Source.ofContent path content).lines
      (Tally.register {} names) where
  kept := fun line isLine visible => ⟨line, isLine, rfl, visible⟩
  numbered := fun line isLine => ⟨line, isLine, rfl⟩
  single := by
    intro _
    rw [Source.numbers_ofContent]
    exact List.nodup_range'
  sameCode := by
    intro _ line isLine out isOut sameNumber
    have distinct : ((Source.ofContent path content).lines.map (·.number)).Nodup := by
      rw [Source.numbers_ofContent]
      exact List.nodup_range'
    have same : out = line := List.inj_on_of_nodup_map distinct isOut isLine sameNumber
    rw [same]
    exact .refl _
  tallied := by
    simp
  unwrapped := by
    simp

/-- A line with code that was not read. -/
def Line.isMadeUp
    (line : Line) :
    Bool :=
  line.number == 0 && !line.text.isBlank

/--
How the lines that were read are found again from orphan repair on; the first
argument tells whether member order may have set lines apart.
-/
structure Resolved
    (ordered : Bool)
    (base : Text)
    (unit : IndentUnit)
    (origin lines : List Line)
    (counters : Tally) :
    Prop where
  kept :
    ∀ line ∈ origin, line.text.isBlank = false →
      ∃ out ∈ lines, out.number = line.number ∧ out.text.isBlank = false
  numbered :
    ∀ out ∈ lines, out.number ≠ 0 → ∃ line ∈ origin, out.number = line.number
  added :
    ∀ out ∈ lines, out.number = 0 →
      (ordered = true ∧ out = Canonical.separator) ∨ Orphan.IsWrapperHeader base unit out
  wrapped :
    (lines.countP (·.isMadeUp) : Int) = counters.count Orphan.wrapCounter
  single :
    counters.NoSplit → ∀ number ≠ 0, (lines.map (·.number)).count number ≤ 1
  recoverable :
    counters.NoMatch → ∀ line ∈ origin, ∀ out ∈ lines,
      out.number = line.number → Marker.Recoverable line.text out.text

namespace Resolved

/-- Counts that concern no rule and no wrapper change nothing about the lines. -/
theorem of_counts
    {ordered : Bool}
    {base : Text}
    {unit : IndentUnit}
    {origin lines : List Line}
    {before after : Tally}
    (resolved : Resolved ordered base unit origin lines before)
    (sameRules : ∀ rule : UpliftRule, after.count rule.name = before.count rule.name)
    (sameWrap : after.count Orphan.wrapCounter = before.count Orphan.wrapCounter) :
    Resolved ordered base unit origin lines after where
  kept := resolved.kept
  numbered := resolved.numbered
  added := resolved.added
  wrapped := resolved.wrapped.trans sameWrap.symm
  single := fun noSplit => resolved.single (noSplit.of_counts sameRules)
  recoverable := fun noMatch => resolved.recoverable (noMatch.of_counts sameRules)

/-- Lines that need no orphan repair are resolved as they are. -/
theorem of_carried
    {origin lines : List Line}
    {counters : Tally}
    (carried : Carried origin lines counters)
    (fromOne : ∀ line ∈ origin, line.number ≠ 0)
    (base : Text)
    (unit : IndentUnit) :
    Resolved false base unit origin lines counters := by
  have positive := carried.number_ne_zero fromOne
  constructor
  case kept =>
    exact carried.kept
  case numbered =>
    intro out isOut _
    exact carried.numbered out isOut
  case added =>
    intro out isOut isZero
    exact absurd isZero (positive out isOut)
  case wrapped =>
    have noneMadeUp : lines.countP (·.isMadeUp) = 0 := by
      rw [List.countP_eq_zero]
      intro out isOut madeUp
      have isZero : out.number = 0 := by
        simp only [Line.isMadeUp, Bool.and_eq_true, beq_iff_eq] at madeUp
        exact madeUp.1
      exact positive out isOut isZero
    rw [noneMadeUp, carried.unwrapped]
    rfl
  case single =>
    intro noSplit number _
    exact List.nodup_iff_count_le_one.mp (carried.single noSplit) number
  case recoverable =>
    intro noMatch line isLine out isOut sameNumber
    exact .inl (carried.sameCode noMatch line isLine out isOut sameNumber)

/-- Every line after the verdicts is a header or comes from a line before them. -/
theorem mem_refreshLines_resolvedLines
    {wrapperName : String}
    {unit : IndentUnit}
    {lines : List Line}
    {out : Line}
    (member : out ∈ refreshLines unit (Orphan.resolvedLines wrapperName unit lines)) :
    Orphan.IsWrapperHeader (Orphan.baseName wrapperName) unit out ∨
      ∃ line ∈ lines, out.number = line.number ∧ Marker.Recoverable line.text out.text := by
  obtain ⟨left, isLeft, sameNumber, sameText⟩ := exists_of_mem_refreshLines member
  unfold Orphan.IsWrapperHeader
  rw [sameNumber, sameText]
  exact Orphan.mem_resolvedLines isLeft

/-- The verdicts resolve the lines they are about and count the headers they add. -/
theorem of_verdicts
    {origin lines : List Line}
    {counters : Tally}
    (carried : Carried origin lines counters)
    (fromOne : ∀ line ∈ origin, line.number ≠ 0)
    (wrapperName : String)
    (unit : IndentUnit) :
    Resolved false (Orphan.baseName wrapperName) unit origin
      (refreshLines unit (Orphan.resolvedLines wrapperName unit lines))
      (counters.add Orphan.wrapCounter
        ((Orphan.verdictsOf wrapperName lines).countP (·.isWrap))) := by
  have positive := carried.number_ne_zero fromOne
  have sameRules (amount : Int) (rule : UpliftRule) :
      (counters.add Orphan.wrapCounter amount).count rule.name = counters.count rule.name := by
    have apart : rule.name ≠ Orphan.wrapCounter := by
      cases rule <;> decide
    simp [apart]
  obtain ⟨numbers, headers⟩ := Orphan.numbers_resolvedLines wrapperName unit positive
  constructor
  case kept =>
    intro line isLine visible
    obtain ⟨middle, isMiddle, middleNumber, middleVisible⟩ := carried.kept line isLine visible
    obtain ⟨left, isLeft, leftNumber, recoverable⟩ :=
      Orphan.exists_mem_resolvedLines wrapperName unit isMiddle
    obtain ⟨out, isOut, outNumber, outText⟩ := exists_mem_refreshLines unit isLeft
    refine ⟨out, isOut, (outNumber.trans leftNumber).trans middleNumber, ?_⟩
    rw [outText]
    exact recoverable.isBlank_eq_false middleVisible
  case numbered =>
    intro out isOut notZero
    rcases mem_refreshLines_resolvedLines isOut with header | ⟨middle, isMiddle, sameNumber, _⟩
    · exact absurd header.1 notZero
    · obtain ⟨line, isLine, middleNumber⟩ := carried.numbered middle isMiddle
      exact ⟨line, isLine, sameNumber.trans middleNumber⟩
  case added =>
    intro out isOut isZero
    rcases mem_refreshLines_resolvedLines isOut with header | ⟨middle, isMiddle, sameNumber, _⟩
    · exact .inr header
    · exact absurd (sameNumber.symm.trans isZero) (positive middle isMiddle)
  case wrapped =>
    -- Without a number there are only headers, so counting them is counting zeros.
    have asZeros :
        (refreshLines unit (Orphan.resolvedLines wrapperName unit lines)).countP (·.isMadeUp) =
          ((refreshLines unit (Orphan.resolvedLines wrapperName unit lines)).map
            (·.number)).count 0 := by
      rw [List.count_eq_countP, List.countP_map]
      apply List.countP_congr
      intro out isOut
      rcases mem_refreshLines_resolvedLines isOut with header | ⟨middle, isMiddle, sameNumber, _⟩
      · simp [Line.isMadeUp, header.1, header.isBlank_eq_false]
      · have notZero := positive middle isMiddle
        rw [← sameNumber] at notZero
        simp [Line.isMadeUp, notZero]
    rw [asZeros, refreshLines_numbers, headers, Tally.count_add, carried.unwrapped]
    simp
  case single =>
    intro noSplit number notZero
    have distinct := carried.single (noSplit.of_counts (sameRules _))
    have counted :
        ((Orphan.resolvedLines wrapperName unit lines).map (·.number)).count number =
          (lines.map (·.number)).count number := by
      rw [← numbers, List.count_filter (by simpa using notZero)]
    rw [refreshLines_numbers, counted]
    exact List.nodup_iff_count_le_one.mp distinct number
  case recoverable =>
    intro noMatch line isLine out isOut sameLine
    rcases mem_refreshLines_resolvedLines isOut with
      header | ⟨middle, isMiddle, sameNumber, recoverable⟩
    · exact absurd (sameLine.symm.trans header.1) (fromOne line isLine)
    · have sameCode := carried.sameCode (noMatch.of_counts (sameRules _)) line isLine middle
        isMiddle (sameNumber.symm.trans sameLine)
      exact recoverable.of_sameCode sameCode

/-- Orphan repair resolves the lines of a consistent file. -/
theorem orphanStage
    {origin : List Line}
    {source : Source}
    (consistent : source.Consistent)
    (carried : Carried origin source.lines source.report.counters)
    (fromOne : ∀ line ∈ origin, line.number ≠ 0)
    (wrapperName : String) :
    Resolved false (Orphan.baseName wrapperName) (source.orphanStage wrapperName).unit origin
      (source.orphanStage wrapperName).lines
      (source.orphanStage wrapperName).report.counters := by
  have registered := carried.register [Orphan.wrapCounter, Orphan.suppressCounter]
  cases runs : (Orphan.verdictsOf wrapperName source.lines).any (·.isRun) with
  | false =>
      have kept := Source.orphanStage_of_no_run runs
      rw [kept.lines, kept.unit, kept.counters]
      exact of_carried registered fromOne _ _
  | true =>
      have resolved := Source.orphanStage_of_run consistent.settled runs
      rw [resolved.lines, resolved.unit, resolved.counters]
      refine (of_verdicts registered fromOne wrapperName source.unit).of_counts ?_ ?_
      · intro rule
        have apart : rule.name ≠ Orphan.suppressCounter := by
          cases rule <;> decide
        simp [apart]
      · have apart : Orphan.wrapCounter ≠ Orphan.suppressCounter := by
          decide
        simp [apart]

/-- Regrouping keeps the lines found again; only separators are new. -/
theorem of_regrouped
    {ordered : Bool}
    {base : Text}
    {unit : IndentUnit}
    {origin before after : List Line}
    {counters : Tally}
    (resolved : Resolved ordered base unit origin before counters)
    (fromOne : ∀ line ∈ origin, line.number ≠ 0)
    (regrouped : Canonical.Regrouped before after) :
    Resolved true base unit origin after counters where
  kept := by
    intro line isLine visible
    obtain ⟨out, isOut, sameNumber, outVisible⟩ := resolved.kept line isLine visible
    have notBlank : out.isBlank = false := by
      simp [Line.isBlank, outVisible]
    exact ⟨out, regrouped.mem_of_not_blank isOut notBlank, sameNumber, outVisible⟩
  numbered := by
    intro out isOut notZero
    rcases regrouped.mem_or_separator isOut with old | rfl
    · exact resolved.numbered out old notZero
    · exact absurd rfl notZero
  added := by
    intro out isOut isZero
    rcases regrouped.mem_or_separator isOut with old | isSeparator
    · exact (resolved.added out old isZero).imp (fun new => ⟨rfl, new.2⟩) id
    · exact .inl ⟨rfl, isSeparator⟩
  wrapped := by
    have noBlank : ∀ line : Line, line.isBlank = true → line.isMadeUp = false := by
      intro line blank
      have blankText : line.text.isBlank = true := by
        simp only [Line.isBlank, Bool.and_eq_true] at blank
        exact blank.2
      simp [Line.isMadeUp, blankText]
    have sameCount : after.countP (·.isMadeUp) = before.countP (·.isMadeUp) :=
      Nat.le_antisymm (regrouped.countP_le _ rfl) (regrouped.le_countP _ noBlank)
    rw [sameCount, resolved.wrapped]
  single := by
    intro noSplit number notZero
    have atMost := resolved.single noSplit number notZero
    have fewer := regrouped.countP_le (·.number == number)
      (beq_false_of_ne (Ne.symm notZero))
    rw [List.count_eq_countP, List.countP_map] at atMost ⊢
    exact Nat.le_trans fewer atMost
  recoverable := by
    intro noMatch line isLine out isOut sameNumber
    rcases regrouped.mem_or_separator isOut with old | rfl
    · exact resolved.recoverable noMatch line isLine out old sameNumber
    · exact absurd sameNumber.symm (fromOne line isLine)

end Resolved

namespace Pipeline

theorem repaired_resolved
    (config : Config)
    (path : String)
    (content : Text) :
    Resolved false (Orphan.baseName config.wrapperName) (repaired config path content).unit
      (Source.ofContent path content).lines (repaired config path content).lines
      (repaired config path content).report.counters := by
  have classifiedCarried :
      Carried (Source.ofContent path content).lines (classified config path content).lines
        (classified config path content).report.counters :=
    (Carried.ofContent path content (countersOf config)).of_continues
      (refreshLines_continues _ _)
  have indented := (classifiedCarried.upliftStage
    (UpliftRule.enabled config.disabledRules)).indentStage
  rw [repaired]
  exact .orphanStage (uplifted_consistent config path content).indentStage indented
    (fun _ => Source.number_ne_zero_of_mem_ofContent) config.wrapperName

/-- The migrated file resolves the lines that were read. -/
theorem migrated_resolved
    (config : Config)
    (path : String)
    (content : Text) :
    Resolved config.canonical (Orphan.baseName config.wrapperName)
      (migrated config path content).unit
      (Source.ofContent path content).lines (migrated config path content).lines
      (migrated config path content).report.counters := by
  have resolved := repaired_resolved config path content
  unfold migrated
  cases config.canonical with
  | false =>
      rw [if_neg Bool.false_ne_true]
      exact resolved
  | true =>
      have regrouped := (repaired config path content).regrouped_canonicalStage
      rw [if_pos rfl, Source.canonicalStage_unit]
      refine (resolved.of_regrouped (fun _ => Source.number_ne_zero_of_mem_ofContent)
        regrouped).of_counts ?_ ?_
      · intro rule
        apply Source.count_canonicalStage
        cases rule <;> decide
      · exact Source.count_canonicalStage _ (by decide)

/--
A configured run loses, repeats and makes up no line of code.  Code stays under
the number of its line; what has no number is a separator of member order or
one of the wrapper headers, which are counted; without a match of a field rule
every line with code stands once, and without any match of a rule it is
recoverable from the text under its number.
-/
theorem run_loses_and_makes_up_no_line
    {config : Config}
    {pipeline : Pipeline}
    (accepted : ofConfig config = .ok pipeline)
    (path : String)
    (content : Text) :
    let origin := (Source.ofContent path content).lines
    let result := (pipeline.run path content).1
    let counters := result.report.counters
    origin.map (·.number) = List.range' 1 origin.length ∧
      (∀ line ∈ origin, line.text.isBlank = false →
        ∃ out ∈ result.lines, out.number = line.number ∧ out.text.isBlank = false) ∧
      (∀ out ∈ result.lines, out.number ≤ origin.length ∧
        (out.number = 0 →
          (config.canonical = true ∧ out = Canonical.separator) ∨
            Orphan.IsWrapperHeader (Orphan.baseName config.wrapperName) result.unit out)) ∧
      (result.lines.countP (·.isMadeUp) : Int) = counters.count Orphan.wrapCounter ∧
      (counters.count UpliftRule.exportedField.name = 0 →
        counters.count UpliftRule.deferredInit.name = 0 →
          ∀ line ∈ origin, line.text.isBlank = false →
            (result.lines.map (·.number)).count line.number = 1) ∧
      ((∀ rule : UpliftRule, counters.count rule.name = 0) →
        ∀ line ∈ origin, ∀ out ∈ result.lines, out.number = line.number →
          Marker.Recoverable line.text out.text) := by
  intro origin result counters
  have numbers : origin.map (·.number) = List.range' 1 origin.length :=
    Source.numbers_ofContent path content
  have ran : result = migrated config path content :=
    congrArg Prod.fst (run_eq_migrated accepted path content)
  have resolved :
      Resolved config.canonical (Orphan.baseName config.wrapperName) result.unit origin
        result.lines counters := by
    unfold counters
    rw [ran]
    exact migrated_resolved config path content
  refine ⟨numbers, resolved.kept, ?_, resolved.wrapped, ?_, resolved.recoverable⟩
  · intro out isOut
    refine ⟨?_, resolved.added out isOut⟩
    by_cases isZero : out.number = 0
    · omega
    · obtain ⟨line, isLine, sameNumber⟩ := resolved.numbered out isOut isZero
      have among := List.mem_map_of_mem (f := Line.number) isLine
      rw [numbers, List.mem_range'_1] at among
      omega
  · intro noExport noDeferral line isLine visible
    have noSplit : counters.NoSplit := by
      intro rule splits
      cases rule <;> first | exact noExport | exact noDeferral | cases splits
    obtain ⟨out, isOut, sameNumber, _⟩ := resolved.kept line isLine visible
    have atMost :=
      resolved.single noSplit line.number (Source.number_ne_zero_of_mem_ofContent isLine)
    have atLeast : 0 < (result.lines.map (·.number)).count line.number := by
      rw [List.count_pos_iff, ← sameNumber]
      exact List.mem_map_of_mem isOut
    omega

/-- An assignment stranded below a field ends on a line of its own under its number. -/
theorem run_keeps_stranded_assignment :
    ofConfig {} = .ok ⟨stagesOf {}, countersOf {}⟩ ∧
      let result := (run ⟨stagesOf {}, countersOf {}⟩ "a.gd" "var a\nx = 5\n".toList).1
      (∃ out ∈ result.lines, out.number = 2 ∧ out.text.isBlank = false) ∧
        ∀ out ∈ result.lines, out.number ≤ 2 := by
  have accepted : ofConfig {} = .ok ⟨stagesOf {}, countersOf {}⟩ := rfl
  obtain ⟨_, kept, numbered, _⟩ :=
    run_loses_and_makes_up_no_line accepted "a.gd" "var a\nx = 5\n".toList
  have stranded :
      Line.ofText 2 "x = 5".toList ∈
        (Source.ofContent "a.gd" "var a\nx = 5\n".toList).lines := by
    decide
  exact ⟨accepted, kept _ stranded (by decide), fun out isOut => (numbered out isOut).1⟩

end Pipeline

end ScriptUplift
