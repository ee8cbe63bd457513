import Mathlib.Data.List.Basic
import Mathlib.Tactic.Common
import ScriptUplift.Proofs.Completion
import ScriptUplift.Proofs.Nesting
import ScriptUplift.Proofs.SpentLines

namespace ScriptUplift

/-!
# Following a line behind a rule

When no rule is switched off, each of the rules that replace calls meets a file
that only the rules before it have changed, and the rules behind it split no
line.  So what it left of a line can be followed to the end of a run by the
number of the line.  Behind uplift a line keeps its code or is commented out;
the only lines with code that were not there are the headers of wrappers.
-/

/-- What a rule that splits no line leaves of each line under a number, the file has there. -/
theorem Source.forall_applyEverywhere
    {rule : UpliftRule}
    (whole : rule.splits = false)
    {source : Source}
    {number : Nat}
    {holds : Text → Prop}
    (left : ∀ line ∈ source.lines, line.number = number →
      ∀ above, holds (line.leftBy rule above)) :
    ∀ out ∈ (source.applyEverywhere rule).lines, out.number = number → holds out.text := by
  intro out member sameNumber
  obtain ⟨line, isLine, above, keepsNumber, isLeft⟩ := exists_of_mem_applyEverywhere whole member
  rw [isLeft]
  exact left line isLine (keepsNumber.symm.trans sameNumber) above

/-- What a rule keeps up when it matches holds of what it leaves. -/
theorem Line.leftBy_preserves
    {rule : UpliftRule}
    {holds : Text → Prop}
    (above : Text)
    {line : Line}
    (step : ∀ replacement, rule.apply above line.text = some replacement → holds replacement.first)
    (start : holds line.text) :
    holds (line.leftBy rule above) := by
  unfold leftBy
  split
  · cases matched : rule.apply above line.text with
    | none =>
        exact start
    | some replacement =>
        exact step replacement matched
  · exact start

/-- What the rules of a list keep up when they match, they keep up under a number. -/
theorem Source.forall_foldl_applyEverywhere
    {rules : List UpliftRule}
    (whole : ∀ rule ∈ rules, rule.splits = false)
    {holds : Text → Prop}
    (step : ∀ rule ∈ rules, ∀ above text replacement,
      rule.apply above text = some replacement → holds text → holds replacement.first)
    {source : Source}
    {number : Nat}
    (start : ∀ line ∈ source.lines, line.number = number → holds line.text) :
    ∀ out ∈ (rules.foldl applyEverywhere source).lines, out.number = number → holds out.text := by
  induction rules generalizing source with
  | nil =>
      exact start
  | cons rule rest inductionHypothesis =>
      obtain ⟨firstWhole, othersWhole⟩ := List.forall_mem_cons.mp whole
      obtain ⟨firstStep, otherSteps⟩ := List.forall_mem_cons.mp step
      refine inductionHypothesis othersWhole otherSteps (forall_applyEverywhere firstWhole ?_)
      intro line member sameNumber above
      have holdsBefore := start line member sameNumber
      exact line.leftBy_preserves above
        (fun replacement matched => firstStep above line.text replacement matched holdsBefore)
        holdsBefore

namespace UpliftRule

/-- The rules that run before a rule. -/
def before
    (rule : UpliftRule) :
    List UpliftRule :=
  all.takeWhile (· != rule)

/-- The signal rules that run behind a rule. -/
def signalRulesBehind
    (rule : UpliftRule) :
    List UpliftRule :=
  [.disconnect, .isConnected, .emit].filter (rule ∈ ·.before)

end UpliftRule

namespace ReplacesCalls

variable {rule : UpliftRule} {callee : String} {build : List Text → Option Text}

/-- Between a rule that replaces calls and suspension run the signal rules behind it. -/
theorem before_suspension_eq
    (replaces : ReplacesCalls rule callee build)
    (notSuspension : rule ≠ .suspension) :
    UpliftRule.before .suspension = rule.before ++ rule :: rule.signalRulesBehind := by
  cases replaces with
  | connect | disconnect | isConnected | emit =>
      rfl
  | suspension =>
      exact absurd rfl notSuspension

theorem splits_eq_false
    (replaces : ReplacesCalls rule callee build) :
    rule.splits = false := by
  cases replaces <;> rfl

end ReplacesCalls

/-- The signal rules behind a rule replace calls, and are other rules. -/
theorem UpliftRule.exists_replacesCalls_of_mem_signalRulesBehind
    {rule later : UpliftRule}
    (isBehind : later ∈ rule.signalRulesBehind) :
    rule ≠ later ∧ (later = .disconnect ∨ later = .isConnected ∨ later = .emit) ∧
      ∃ callee build, ReplacesCalls later callee build := by
  obtain ⟨isSignalRule, inBefore⟩ := List.mem_filter.mp isBehind
  have other : rule ≠ later := by
    rintro rfl
    revert inBefore
    cases rule <;> decide
  refine ⟨other, by simpa using isSignalRule, ?_⟩
  simp only [List.mem_cons, List.not_mem_nil, or_false] at isSignalRule
  rcases isSignalRule with rfl | rfl | rfl
  · exact ⟨_, _, .disconnect⟩
  · exact ⟨_, _, .isConnected⟩
  · exact ⟨_, _, .emit⟩

namespace Pipeline

/-- The file that a rule meets when no rule is switched off. -/
def metBy
    (config : Config)
    (path : String)
    (content : Text)
    (rule : UpliftRule) :
    Source :=
  rule.before.foldl Source.applyEverywhere
    ((classified config path content).register (UpliftRule.all.map (·.name)))

/-- Suspension meets what the signal rules from a rule on have left of the file the rule met. -/
theorem metBy_suspension
    (config : Config)
    (path : String)
    (content : Text)
    {rule : UpliftRule}
    {callee : String}
    {build : List Text → Option Text}
    (replaces : ReplacesCalls rule callee build)
    (notSuspension : rule ≠ .suspension) :
    metBy config path content .suspension =
      rule.signalRulesBehind.foldl Source.applyEverywhere
        ((metBy config path content rule).applyEverywhere rule) := by
  unfold metBy
  rw [replaces.before_suspension_eq notSuspension, List.foldl_append, List.foldl_cons]

/-- Suspension is the last of the rules. -/
theorem uplifted_eq
    {config : Config}
    (noneDisabled : config.disabledRules = [])
    (path : String)
    (content : Text) :
    uplifted config path content =
      (metBy config path content .suspension).applyEverywhere .suspension := by
  have allEnabled : UpliftRule.enabled config.disabledRules = UpliftRule.all := by
    rw [noneDisabled]
    rfl
  have parts : UpliftRule.all = UpliftRule.before .suspension ++ [.suspension] :=
    rfl
  unfold uplifted metBy Source.upliftStage
  rw [allEnabled, parts, List.foldl_append, List.foldl_cons, List.foldl_nil]

end Pipeline

/-- A word that goes on is still a word. -/
theorem isIdentifier_append
    {base ending : Text}
    (named : isIdentifier base = true)
    (letters : ending.all isIdentifierChar = true) :
    isIdentifier (base ++ ending) = true := by
  cases base with
  | nil =>
      cases named
  | cons first rest =>
      rw [isIdentifier, Bool.and_eq_true] at named
      rw [List.cons_append, isIdentifier, List.all_append, named.1, named.2, letters]
      rfl

/-- Text without quotation marks, backslashes and comment marks is code. -/
theorem Scan.code_of_quiet
    {text : Text}
    (quiet : text.all Scanning.isQuiet = true) :
    (line none text).code = text := by
  induction text with
  | nil =>
      rfl
  | cons character rest inductionHypothesis =>
      rw [List.all_cons, Bool.and_eq_true] at quiet
      obtain ⟨own, others⟩ := quiet
      have noComment : character ≠ '#' := by
        rintro rfl
        cases own
      rw [line_cons_plain noComment (Scanning.isQuoteMark_of_isQuiet own)]
      exact congrArg (character :: ·) (inductionHypothesis others)

/-- Words that do not call a name make no call of it. -/
theorem Assembled.spent_of_words
    {callee : Text}
    {text : Text}
    (assembled : Assembled callee [] text)
    (build : List Text → Option Text) :
    Spent callee build text := by
  have noArgument {holds : Text → Prop} : ∀ argument ∈ ([] : List Text), holds argument :=
    fun _ member => absurd member List.not_mem_nil
  intro site member
  refine assembled.spent noArgument noArgument [] site ?_
  simpa [sitesAbove, callSites] using member

namespace Orphan

/-- The code of the header of a wrapper method. -/
def headerCode
    (name : Text) :
    Text :=
  "func".toList ++ ' ' :: (name ++ ['(', ')', ':'])

theorem code_headerCode
    {name : Text}
    (named : isIdentifier name = true) :
    (LineParts.ofText (headerCode name)).code = headerCode name := by
  have quiet : (headerCode name).all Scanning.isQuiet = true := by
    rw [headerCode, List.all_append, List.all_cons, List.all_append,
      Scanning.all_isQuiet_of_isIdentifier named]
    decide
  exact congrArg Text.dropIndentation (Scan.code_of_quiet quiet)

/-- The header of a wrapper method whose name the given base begins. -/
def IsHeaderText
    (base text : Text) :
    Prop :=
  ∃ ending : Text, ending.all isIdentifierChar = true ∧ (headerCode (base ++ ending)).SameCode text

theorem isHeaderText_wrapperHeader
    (unit : IndentUnit)
    (depth : Nat)
    (base : Text)
    {ending : Text}
    (letters : ending.all isIdentifierChar = true) :
    IsHeaderText base (wrapperHeader unit depth (base ++ ending)).text := by
  have shape : (wrapperHeader unit depth (base ++ ending)).text =
      unit.lead depth ++ headerCode (base ++ ending) := by
    simp [wrapperHeader, headerCode]
  rw [shape]
  exact ⟨ending, letters, unit.sameCode_lead_append depth _⟩

end Orphan

/-- The header of a wrapper calls nothing that a rule replaces. -/
theorem ReplacesCalls.isDoneWith_of_isHeaderText
    {rule : UpliftRule}
    {callee : String}
    {build : List Text → Option Text}
    (replaces : ReplacesCalls rule callee build)
    {text : Text}
    (header : Orphan.IsHeaderText Orphan.defaultWrapperName.toList text) :
    rule.IsDoneWith text := by
  obtain ⟨ending, letters, sameCode⟩ := header
  have named : isIdentifier (Orphan.defaultWrapperName.toList ++ ending) = true :=
    isIdentifier_append (by decide) letters
  rw [replaces.isDoneWith_iff, ← LineParts.code_eq_of_sameCode sameCode,
    Orphan.code_headerCode named]
  refine Assembled.spent_of_words ?_ build
  refine .otherWord (by decide) ?keyword (by decide) (.otherWord named ?name (by decide)
    (.mark (by decide) (.mark (by decide) .done)))
  case keyword =>
    cases replaces <;> decide
  case name =>
    cases replaces <;> simp [Orphan.defaultWrapperName]

/-- Code behind a suppression marker is a comment. -/
theorem LineParts.code_suppressed
    (hidden : Text) :
    (ofText (Marker.suppressed ++ hidden)).code = [] := by
  have marked : Marker.suppressed ++ hidden = '#' :: (" orphaned: ".toList ++ hidden) :=
    rfl
  unfold ofText
  dsimp only
  rw [marked, Scan.line_comment]
  rfl

namespace Pipeline

/-- A line behind orphan repair has no code, heads a wrapper, or has code of a line behind uplift. -/
theorem exists_of_mem_repaired
    {config : Config}
    {path : String}
    {content : Text}
    {out : Line}
    (member : out ∈ (repaired config path content).lines) :
    (LineParts.ofText out.text).code = [] ∨
      Orphan.IsHeaderText (Orphan.baseName config.wrapperName) out.text ∨
        ∃ line ∈ (uplifted config path content).lines,
          out.number = line.number ∧ line.text.SameCode out.text := by
  have consistent := uplifted_consistent config path content
  have ofIndented {moved : Line}
      (isMoved : moved ∈ (uplifted config path content).indentStage.lines) :
      ∃ line ∈ (uplifted config path content).lines,
        moved.number = line.number ∧ line.text.SameCode moved.text := by
    rw [Source.lines_indentStage consistent] at isMoved
    obtain ⟨left, isLeft, sameNumber, sameText⟩ := exists_of_mem_refreshLines isMoved
    obtain ⟨line, isLine, keepsNumber, sameCode⟩ :=
      exists_left_of_forall₂ (Indent.repairLines_sameCode _ [] 0 _) isLeft
    exact ⟨line, isLine, sameNumber.trans keepsNumber, sameText ▸ sameCode⟩
  unfold repaired at member
  cases runs : (Orphan.verdictsOf config.wrapperName
      (uplifted config path content).indentStage.lines).any (·.isRun) with
  | false =>
      rw [(Source.orphanStage_of_no_run runs).lines] at member
      exact .inr (.inr (ofIndented member))
  | true =>
      rw [(Source.orphanStage_of_run consistent.indentStage.settled runs).lines] at member
      obtain ⟨left, isLeft, sameNumber, sameText⟩ := exists_of_mem_refreshLines member
      rw [sameNumber, sameText]
      rcases Orphan.exists_wrap_of_mem_resolvedLines isLeft with
        ⟨depth, name, ⟨members, decided⟩, rfl⟩ | ⟨moved, isMoved, keepsNumber, recoverable⟩
      · obtain ⟨ending, letters, rfl⟩ := Orphan.exists_ending_of_wrap decided
        exact .inr (.inl (Orphan.isHeaderText_wrapperHeader _ depth _ letters))
      · rcases recoverable with sameCode | ⟨hidden, marked, _⟩
        · obtain ⟨line, isLine, lineNumber, movedCode⟩ := ofIndented isMoved
          exact .inr (.inr ⟨line, isLine, keepsNumber.trans lineNumber, movedCode.trans sameCode⟩)
        · rw [marked]
          exact .inl (LineParts.code_suppressed hidden)

/-- Member order brings in no code. -/
theorem exists_of_mem_migrated
    {config : Config}
    {path : String}
    {content : Text}
    {out : Line}
    (member : out ∈ (migrated config path content).lines) :
    (LineParts.ofText out.text).code = [] ∨
      Orphan.IsHeaderText (Orphan.baseName config.wrapperName) out.text ∨
        ∃ line ∈ (uplifted config path content).lines,
          out.number = line.number ∧ line.text.SameCode out.text := by
  rcases mem_repaired_or_separator member with old | rfl
  · exact exists_of_mem_repaired old
  · exact .inl rfl

end Pipeline

end ScriptUplift
