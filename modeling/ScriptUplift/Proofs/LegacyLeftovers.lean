import Mathlib.Data.List.Basic
import Mathlib.Tactic.Common
import ScriptUplift.Diagnostics.Legacy
import ScriptUplift.Proofs.UpliftTrace

namespace ScriptUplift

/-!
# What the legacy check finds behind uplift

Every record about a call of the old dialect is about a call that one of the
rules replaces, and stands at a line on which that rule is done: it would not
match there again.  A rule may leave a line undone that was passed over as a
continuation, that has more calls than are replaced at once, or whose calls
suspension changed behind it.
-/

namespace Legacy

/-- The finding about a call of a name that was left in place. -/
def leftover
    (callee : String) :
    String × String :=
  if callee = "emit_signal" then
    ("legacy_emit_signal", "emit_signal with a non-literal signal name was left in place")
  else if callee = "yield" then
    ("legacy_yield", "yield could not be translated to await")
  else
    ("legacy_connect", callee ++ " with a signal name string was left in place")

/-- The codes of the findings about calls. -/
def callCodes : List String :=
  ["legacy_emit_signal", "legacy_yield", "legacy_connect"]

/-- Every record is about a finding in the code of its line, read within some string or none. -/
theorem exists_of_mem_checkFrom
    {file : String}
    {number : Nat}
    {openString : Option Delimiter}
    {texts : List Text}
    {categories : List Category}
    {found : Record}
    (member : found ∈ checkFrom file number openString texts categories) :
    ∃ index text around finding,
      texts[index]? = some text ∧
        finding ∈ codeFindings (Scan.line around text).code.trim ∧
        found = record file (number + index) finding := by
  induction texts generalizing number openString categories with
  | nil =>
      cases member
  | cons text rest inductionHypothesis =>
      rw [checkFrom, List.mem_append] at member
      rcases member with own | below
      · split at own
        · cases own
        · obtain ⟨finding, isFinding, rfl⟩ := List.mem_map.mp own
          exact ⟨0, text, openString, finding, rfl, isFinding, rfl⟩
      · obtain ⟨index, other, around, finding, isOther, isFinding, rfl⟩ :=
          inductionHypothesis below
        refine ⟨index + 1, other, around, finding, isOther, isFinding, ?_⟩
        rw [Nat.add_right_comm, Nat.add_assoc]

/-- A finding about a call names the callee of one of the rules that replace calls. -/
theorem exists_rule_of_callFinding?
    {code : Text}
    {call : Call}
    (flagged : isCallee call.name = true)
    {finding : String × String}
    (isFinding : callFinding? code call = some finding) :
    ∃ rule callee build, ReplacesCalls rule callee build ∧ finding = leftover callee := by
  unfold callFinding? at isFinding
  split at isFinding
  · exact ⟨_, _, _, .emit, (Option.some.inj isFinding).symm⟩
  · rename_i notEmit
    split at isFinding
    · exact ⟨_, _, _, .suspension, (Option.some.inj isFinding).symm⟩
    · rename_i notYield
      split at isFinding
      · obtain rfl := Option.some.inj isFinding
        have named : call.name = "connect".toList ∨ call.name = "disconnect".toList ∨
            call.name = "is_connected".toList := by
          simp only [isCallee, List.any_cons, List.any_nil, Bool.or_eq_true, beq_iff_eq,
            Bool.or_false] at flagged
          simpa only [Ne.symm notEmit, Ne.symm notYield, eq_comm, false_or] using flagged
        rcases named with name | name | name
        · exact ⟨_, _, _, .connect, by rw [name]; rfl⟩
        · exact ⟨_, _, _, .disconnect, by rw [name]; rfl⟩
        · exact ⟨_, _, _, .isConnected, by rw [name]; rfl⟩
      · cases isFinding

theorem callee_of_mem_findAll
    {callee? : Text → Bool}
    {code : Text}
    {call : Call}
    (member : call ∈ Call.findAll callee? code) :
    callee? call.name = true := by
  obtain ⟨token, among, made⟩ := List.mem_filterMap.mp member
  unfold Call.ofToken? at made
  dsimp only at made
  split at made
  · obtain ⟨_, _, rfl⟩ := Option.map_eq_some_iff.mp made
    exact (List.mem_filter.mp among).2
  · cases made

/-- Every record about a call is about the callee of one of the rules that replace calls. -/
theorem exists_rule_of_mem_check
    {file : String}
    {texts : List Text}
    {categories : List Category}
    {found : Record}
    (member : found ∈ check file texts categories)
    (aboutCall : found.code ∈ callCodes) :
    ∃ index text rule callee build,
      texts[index]? = some text ∧ ReplacesCalls rule callee build ∧
        found = record file (index + 1) (leftover callee) := by
  obtain ⟨index, text, around, finding, isText, isFinding, rfl⟩ := exists_of_mem_checkFrom member
  rw [Nat.add_comm]
  have other (isOther : finding.1 = "legacy_setget" ∨ finding.1 = "legacy_export") :
      finding.1 ∉ callCodes := by
    rcases isOther with code | code <;> rw [code] <;> decide
  unfold codeFindings at isFinding
  rcases List.mem_append.mp isFinding with aboveField | isField
  · rcases List.mem_append.mp aboveField with isCall | isAccessor
    · obtain ⟨call, isCalled, found⟩ := List.mem_filterMap.mp isCall
      obtain ⟨rule, callee, build, replaces, rfl⟩ :=
        exists_rule_of_callFinding? (callee_of_mem_findAll isCalled) found
      exact ⟨index, text, rule, callee, build, isText, replaces, rfl⟩
    · refine absurd aboutCall (other ?_)
      unfold accessorFinding? at isAccessor
      split at isAccessor
      · rw [Option.toList_some, List.mem_singleton] at isAccessor
        subst isAccessor
        exact .inl rfl
      · cases isAccessor
  · refine absurd aboutCall (other ?_)
    unfold fieldFinding? at isField
    dsimp only at isField
    split at isField
    · rw [Option.toList_some, List.mem_singleton] at isField
      subst isField
      exact .inr rfl
    · cases isField

end Legacy

/--
A line that a rule can finish: the line starts a statement, the rule stops there
before its limit, and no blank in it counts as part of a word.
-/
structure Line.WithinReach
    (rule : UpliftRule)
    (line : Line) :
    Prop where
  starts : line.isStatement = true
  stops : ∀ above replacement, rule.apply above line.text = some replacement →
    replacement.count < maxCallsPerLine
  blanksPart : BlanksPartWords line.text

/-- Suspension does not match the line, or it is the rule in question and keeps the comment. -/
def Line.OutlastsSuspension
    (rule : UpliftRule)
    (line : Line) :
    Prop :=
  ∀ above replacement, UpliftRule.suspension.apply above line.text = some replacement →
    rule = .suspension ∧
      (LineParts.ofText replacement.first).comment = (LineParts.ofText line.text).comment

namespace Pipeline

/-- A rule can finish the lines it meets under a number, and suspension leaves them finished. -/
structure GetsDone
    (config : Config)
    (path : String)
    (content : Text)
    (rule : UpliftRule)
    (number : Nat) :
    Prop where
  withinReach : ∀ line ∈ (metBy config path content rule).lines, line.number = number →
    line.WithinReach rule
  outlasts : ∀ line ∈ (metBy config path content .suspension).lines, line.number = number →
    line.OutlastsSuspension rule

variable {config : Config} {path : String} {content : Text} {rule : UpliftRule} {callee : String}
  {build : List Text → Option Text} {number : Nat}

/-- What a signal rule is done with, the signal rules behind it leave done. -/
theorem isDoneWith_of_mem_metBy_suspension
    (replaces : ReplacesCalls rule callee build)
    (notSuspension : rule ≠ .suspension)
    (withinReach : ∀ line ∈ (metBy config path content rule).lines, line.number = number →
      line.WithinReach rule) :
    ∀ line ∈ (metBy config path content .suspension).lines, line.number = number →
      rule.IsDoneWith line.text := by
  let holds (text : Text) : Prop :=
    rule.IsDoneWith text ∧ BlanksPartWords text
  have whole : ∀ later ∈ rule.signalRulesBehind, later.splits = false := by
    intro later isBehind
    obtain ⟨_, _, laterCallee, laterBuild, laterReplaces⟩ :=
      UpliftRule.exists_replacesCalls_of_mem_signalRulesBehind isBehind
    exact laterReplaces.splits_eq_false
  have step : ∀ later ∈ rule.signalRulesBehind, ∀ above text replacement,
      later.apply above text = some replacement → holds text → holds replacement.first := by
    rintro later isBehind above text replacement matched ⟨done, blanksPart⟩
    obtain ⟨other, plain, laterCallee, laterBuild, laterReplaces⟩ :=
      UpliftRule.exists_replacesCalls_of_mem_signalRulesBehind isBehind
    have laterNotSuspension : later ≠ .suspension := by
      rintro rfl
      simp at plain
    constructor
    · exact replaces.isDoneWith_first_of_later notSuspension laterReplaces plain other matched done
        blanksPart
    · exact laterReplaces.blanksPartWords_first laterNotSuspension matched blanksPart
  have start : ∀ out ∈ ((metBy config path content rule).applyEverywhere rule).lines,
      out.number = number → holds out.text := by
    refine Source.forall_applyEverywhere replaces.splits_eq_false ?_
    intro line member sameNumber above
    obtain ⟨starts, stops, blanksPart⟩ := withinReach line member sameNumber
    unfold Line.leftBy
    rw [if_pos starts]
    cases matched : rule.apply above line.text with
    | none =>
        exact ⟨replaces.isDoneWith_of_eq_none matched, blanksPart⟩
    | some replacement =>
        exact ⟨replaces.isDoneWith_first matched (stops above replacement matched)
            (replaces.comment_eq notSuspension matched),
          replaces.blanksPartWords_first notSuspension matched blanksPart⟩
  rw [metBy_suspension config path content replaces notSuspension]
  intro line member sameNumber
  exact (Source.forall_foldl_applyEverywhere whole step start line member sameNumber).1

/-- Behind uplift a rule is done with the lines it gets done with. -/
theorem isDoneWith_of_mem_uplifted
    (replaces : ReplacesCalls rule callee build)
    (noneDisabled : config.disabledRules = [])
    (getsDone : GetsDone config path content rule number) :
    ∀ line ∈ (uplifted config path content).lines, line.number = number →
      rule.IsDoneWith line.text := by
  rw [uplifted_eq noneDisabled]
  refine Source.forall_applyEverywhere ReplacesCalls.suspension.splits_eq_false ?_
  intro line member sameNumber above
  have outlasts := getsDone.outlasts line member sameNumber
  by_cases isSuspension : rule = .suspension
  · subst isSuspension
    obtain ⟨starts, stops, _⟩ := getsDone.withinReach line member sameNumber
    unfold Line.leftBy
    rw [if_pos starts]
    cases matched : UpliftRule.suspension.apply above line.text with
    | none =>
        exact replaces.isDoneWith_of_eq_none matched
    | some replacement =>
        exact replaces.isDoneWith_first matched (stops above replacement matched)
          (outlasts above replacement matched).2
  · refine line.leftBy_preserves above ?_ (isDoneWith_of_mem_metBy_suspension replaces isSuspension
      getsDone.withinReach line member sameNumber)
    intro replacement matched
    exact absurd (outlasts above replacement matched).1 isSuspension

/-- No stage behind uplift brings back a call that a rule is done with. -/
theorem isDoneWith_of_mem_migrated
    (replaces : ReplacesCalls rule callee build)
    (noneDisabled : config.disabledRules = [])
    (plainWrapper : config.wrapperName = Orphan.defaultWrapperName)
    {line : Line}
    (member : line ∈ (migrated config path content).lines)
    (getsDone : GetsDone config path content rule line.number) :
    rule.IsDoneWith line.text := by
  rcases exists_of_mem_migrated member with noCode | header | ⟨before, isLine, sameNumber, sameCode⟩
  · rw [replaces.isDoneWith_iff, noCode]
    exact fun _ isSite => absurd isSite List.not_mem_nil
  · rw [plainWrapper] at header
    exact replaces.isDoneWith_of_isHeaderText header
  · rw [replaces.isDoneWith_iff, ← LineParts.code_eq_of_sameCode sameCode,
      ← replaces.isDoneWith_iff]
    exact isDoneWith_of_mem_uplifted replaces noneDisabled getsDone before isLine sameNumber.symm

/--
With no rule switched off, every record of the legacy check about a call is
about a name whose calls one of the rules replaces, and stands at a line on
which that rule does not match, provided it got done with the line: every line
it met under that number started a statement and held fewer calls than it
replaces at once, and suspension changed nothing there behind it.
-/
theorem legacy_calls_are_untranslatable
    {config : Config}
    {pipeline : Pipeline}
    (accepted : ofConfig config = .ok pipeline)
    (noneDisabled : config.disabledRules = [])
    (plainWrapper : config.wrapperName = Orphan.defaultWrapperName)
    (path file : String)
    (content : Text) :
    let result := (pipeline.run path content).1
    ∀ found ∈ Legacy.check file result.texts result.categories, found.code ∈ Legacy.callCodes →
      ∃ index line rule callee build,
        result.lines[index]? = some line ∧
          ReplacesCalls rule callee build ∧
          found = Legacy.record file (index + 1) (Legacy.leftover callee) ∧
          (GetsDone config path content rule line.number →
            ∀ above, rule.apply above line.text = none) := by
  intro result found member aboutCall
  have ran : result = migrated config path content :=
    congrArg Prod.fst (run_eq_migrated accepted path content)
  obtain ⟨index, text, rule, callee, build, isText, replaces, rfl⟩ :=
    Legacy.exists_rule_of_mem_check member aboutCall
  obtain ⟨line, isLine, rfl⟩ : ∃ line, result.lines[index]? = some line ∧ line.text = text := by
    simpa [Source.texts] using isText
  refine ⟨index, line, rule, callee, build, isLine, replaces, rfl, ?_⟩
  intro getsDone
  have inMigrated : line ∈ (migrated config path content).lines :=
    ran ▸ List.mem_of_getElem? isLine
  exact isDoneWith_of_mem_migrated replaces noneDisabled plainWrapper inMigrated getsDone

/-- A line that emits one signal by its name and another through a variable. -/
def mixedEmissions : Text :=
  "func f():\n\temit_signal(\"a\"); emit_signal(b)\n".toList

/-- Of two emissions on a line, the one of a signal that is not named is left, and flagged. -/
theorem legacy_call_of_unnamed_signal :
    ofConfig {} = .ok ⟨stagesOf {}, countersOf {}⟩ ∧
      let result := (run ⟨stagesOf {}, countersOf {}⟩ "a.gd" mixedEmissions).1
      let found := Legacy.record "a.gd" 2 (Legacy.leftover "emit_signal")
      Legacy.check "a.gd" result.texts result.categories = [found] ∧
        ∃ index line rule callee build,
          result.lines[index]? = some line ∧
            ReplacesCalls rule callee build ∧
            found = Legacy.record "a.gd" (index + 1) (Legacy.leftover callee) ∧
            ∀ above, rule.apply above line.text = none := by
  have accepted : ofConfig {} = .ok ⟨stagesOf {}, countersOf {}⟩ := rfl
  refine ⟨accepted, ?_⟩
  intro result found
  have sole : Legacy.check "a.gd" result.texts result.categories = [found] := by
    decide +kernel
  obtain ⟨index, line, rule, callee, build, isLine, replaces, same, done⟩ :=
    legacy_calls_are_untranslatable accepted rfl rfl "a.gd" "a.gd" _ found
      (by rw [sole]; exact List.mem_singleton.mpr rfl) (by decide)
  refine ⟨sole, index, line, rule, callee, build, isLine, replaces, same, done ?_⟩
  constructor
  case withinReach =>
    intro met member _
    have reached : ∀ met ∈ (metBy {} "a.gd" mixedEmissions rule).lines,
        met.isStatement = true ∧
          (rule.apply [] met.text).all (·.count < maxCallsPerLine) = true ∧
          BlanksPartWords met.text := by
      cases replaces <;> decide +kernel
    obtain ⟨starts, stops, blanksPart⟩ := reached met member
    refine ⟨starts, fun above replacement matched => ?_, blanksPart⟩
    rw [replaces.apply_eq, ← replaces.apply_eq []] at matched
    rw [matched] at stops
    exact of_decide_eq_true stops
  case outlasts =>
    intro met member _ above replacement matched
    have unmatched : ∀ met ∈ (metBy {} "a.gd" mixedEmissions .suspension).lines,
        UpliftRule.suspension.apply [] met.text = none := by
      decide +kernel
    have done := ReplacesCalls.suspension.isDoneWith_of_eq_none (unmatched met member)
    rw [done above] at matched
    cases matched

/-- The legacy check of a default run flags a call at a line on which its rule would match. -/
def FlagsMatch
    (content : Text)
    (number : Nat)
    (rule : UpliftRule)
    (callee : String) :
    Prop :=
  let result := (run ⟨stagesOf {}, countersOf {}⟩ "a.gd" content).1
  Legacy.record "a.gd" number (Legacy.leftover callee) ∈
      Legacy.check "a.gd" result.texts result.categories ∧
    (rule.apply (result.texts.getD (number - 2) [])
      (result.texts.getD (number - 1) [])).isSome = true

instance (content : Text) (number : Nat) (rule : UpliftRule) (callee : String) :
    Decidable (FlagsMatch content number rule callee) :=
  inferInstanceAs (Decidable (_ ∧ _))

/--
An emission with a literal name is flagged inside the brackets of another call, where
the check reads every line and the rules pass over the ones that start no statement.
-/
theorem emission_in_brackets_flagged_at_match :
    ofConfig {} = .ok ⟨stagesOf {}, countersOf {}⟩ ∧
      FlagsMatch "func f():\n\tfoo(\n\t\temit_signal(\"x\"))".toList 3 .emit "emit_signal" := by
  refine ⟨rfl, ?_⟩
  decide +kernel

end Pipeline

end ScriptUplift
