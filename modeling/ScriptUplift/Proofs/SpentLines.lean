import Mathlib.Data.List.Basic
import Mathlib.Tactic.Common
import ScriptUplift.Proofs.CarriedCalls
import ScriptUplift.Proofs.CommentBorder
import ScriptUplift.Proofs.Knowledge
import ScriptUplift.Proofs.Reindented
import ScriptUplift.Proofs.UpliftEngine

namespace ScriptUplift

/-!
# Lines on which a rule is done

A rule that replaces calls answers with nothing exactly when the code of a line
is spent for it.  It is done with a line when it stopped before its limit, and
the rules behind it leave it done, whether they match or not.
-/

/-- Calls are replaced exactly in code that has one which can be. -/
theorem replaceCalls_eq_none_iff
    {callee : String}
    (name : CalleeName callee.toList)
    (build : List Text → Option Text)
    (text : Text) :
    replaceCalls callee build text = none ↔
      Spent callee.toList build (LineParts.ofText text).code := by
  have unmatched : replaceCalls callee build text = none ↔
      (replaceCallsFrom callee.toList build maxCallsPerLine 0 (LineParts.ofText text).code).2 =
        0 := by
    unfold replaceCalls
    dsimp only
    split
    · simp [*]
    · simp [*]
  rw [unmatched]
  rcases replaceCallsFrom_cases name build 31 0 (LineParts.ofText text).code with
    ⟨unbuilt, ends⟩ | ⟨before, site, after, new, parts, _, built, step⟩
  · rw [maxCallsPerLine, ends]
    exact ⟨fun _ => unbuilt, fun _ => rfl⟩
  · rw [maxCallsPerLine, step]
    constructor
    · intro zero
      cases zero
    · intro spent
      have member : site ∈ callSites callee.toList (LineParts.ofText text).code := by
        rw [List.drop_zero] at parts
        rw [parts]
        exact List.mem_append_right _ List.mem_cons_self
      rw [spent site member] at built
      cases built

/-- Texts with the same code behind their indentation have the same code. -/
theorem LineParts.code_eq_of_sameCode
    {first second : Text}
    (same : first.SameCode second) :
    (ofText first).code = (ofText second).code := by
  obtain ⟨code, firstShape, secondShape⟩ := same.exists_code
  have ofIndented (text : Text) :
      (ofText (text.indentation ++ code)).code = (ofText code).code := by
    have indents : ∀ character ∈ text.indentation, isIndentChar character = true :=
      fun _ member => List.mem_takeWhile_imp member
    calc
      (ofText (text.indentation ++ code)).code
        = (Scan.line none (text.indentation ++ code)).code.dropIndentation := rfl
      _ = (Scan.line none code).code.dropIndentation := by
          rw [Scan.line_indentation_append indents, Text.dropIndentation,
            List.dropWhile_append_of_pos indents, ← Text.dropIndentation]
  rw [firstShape, secondShape, ofIndented, ofIndented]

/-- A rule does not match a text, whatever stands above it. -/
def UpliftRule.IsDoneWith
    (rule : UpliftRule)
    (text : Text) :
    Prop :=
  ∀ above, rule.apply above text = none

namespace ReplacesCalls

variable {rule later : UpliftRule} {callee laterCallee : String}
  {build laterBuild : List Text → Option Text}

/-- A rule is done with a line exactly when the code of the line is spent for it. -/
theorem isDoneWith_iff
    (replaces : ReplacesCalls rule callee build)
    (text : Text) :
    rule.IsDoneWith text ↔ Spent callee.toList build (LineParts.ofText text).code := by
  have apply_eq_none_iff (above : Text) : rule.apply above text = none ↔
      Spent callee.toList build (LineParts.ofText text).code := by
    rw [replaces.apply_eq]
    exact replaceCalls_eq_none_iff replaces.calleeName build text
  exact ⟨fun done => (apply_eq_none_iff []).mp (done []),
    fun spent above => (apply_eq_none_iff above).mpr spent⟩

/-- Whether a rule that replaces calls matches does not depend on the line above. -/
theorem isDoneWith_of_eq_none
    (replaces : ReplacesCalls rule callee build)
    {above text : Text}
    (unmatched : rule.apply above text = none) :
    rule.IsDoneWith text := by
  intro other
  rw [replaces.apply_eq] at unmatched ⊢
  exact unmatched

/-- Signal rules leave the comment of a line alone. -/
theorem comment_eq
    (replaces : ReplacesCalls rule callee build)
    (notSuspension : rule ≠ .suspension)
    {above text : Text}
    {replacement : Replacement}
    (matched : rule.apply above text = some replacement) :
    (LineParts.ofText replacement.first).comment = (LineParts.ofText text).comment := by
  rw [replaces.apply_eq] at matched
  obtain ⟨_, rfl⟩ := replaceCalls_eq_some matched
  refine LineParts.comment_withCode ?_
  have start : Scanning.code.IsProper :=
    trivial
  rw [Scanning.through_append, Scanning.through_append,
    replaces.through_replaceCallsFrom notSuspension _ _ _ (start.through _)]

/-- The code of a line whose calls were replaced. -/
theorem code_eq
    (replaces : ReplacesCalls rule callee build)
    {above text : Text}
    {replacement : Replacement}
    (matched : rule.apply above text = some replacement)
    (sameComment : (LineParts.ofText replacement.first).comment = (LineParts.ofText text).comment) :
    (LineParts.ofText replacement.first).code =
      (replaceCallsFrom callee.toList build maxCallsPerLine 0 (LineParts.ofText text).code).1 := by
  rw [replaces.apply_eq] at matched
  obtain ⟨_, rfl⟩ := replaceCalls_eq_some matched
  rw [LineParts.ofText_withCode sameComment
    (replaces.dropIndentation_replaceCallsFrom _ _ (LineParts.dropIndentation_code text))]

/-- A signal rule that makes no blank part of a word in the code makes none on the line. -/
theorem blanksPartWords_first
    (replaces : ReplacesCalls rule callee build)
    (notSuspension : rule ≠ .suspension)
    {above text : Text}
    {replacement : Replacement}
    (matched : rule.apply above text = some replacement)
    (blanksPart : BlanksPartWords text) :
    BlanksPartWords replacement.first := by
  rw [replaces.apply_eq] at matched
  obtain ⟨_, rfl⟩ := replaceCalls_eq_some matched
  rw [← LineParts.withCode_code text, LineParts.withCode, blanksPartWords_append,
    blanksPartWords_append] at blanksPart
  rw [LineParts.withCode, blanksPartWords_append, blanksPartWords_append]
  exact ⟨⟨blanksPart.1.1, replaces.blanksPartWords_replaceCallsFrom notSuspension _ _
    blanksPart.1.2⟩, blanksPart.2⟩

/-- A rule that stopped before its limit and kept the comment is done with what it leaves. -/
theorem isDoneWith_first
    (replaces : ReplacesCalls rule callee build)
    {above text : Text}
    {replacement : Replacement}
    (matched : rule.apply above text = some replacement)
    (stopped : replacement.count < maxCallsPerLine)
    (sameComment : (LineParts.ofText replacement.first).comment = (LineParts.ofText text).comment) :
    rule.IsDoneWith replacement.first := by
  rw [replaces.isDoneWith_iff, replaces.code_eq matched sameComment]
  rw [replaces.apply_eq] at matched
  obtain ⟨_, rfl⟩ := replaceCalls_eq_some matched
  exact replaces.spent_of_lt stopped

/-- The signal rules behind a rule leave it done with what it was done with. -/
theorem isDoneWith_first_of_later
    (replaces : ReplacesCalls rule callee build)
    (notSuspension : rule ≠ .suspension)
    (laterReplaces : ReplacesCalls later laterCallee laterBuild)
    (plain : later = .disconnect ∨ later = .isConnected ∨ later = .emit)
    (other : rule ≠ later)
    {above text : Text}
    {replacement : Replacement}
    (matched : later.apply above text = some replacement)
    (done : rule.IsDoneWith text)
    (blanksPart : BlanksPartWords text) :
    rule.IsDoneWith replacement.first := by
  have laterNotSuspension : later ≠ .suspension := by
    rintro rfl
    simp at plain
  rw [replaces.isDoneWith_iff,
    laterReplaces.code_eq matched (laterReplaces.comment_eq laterNotSuspension matched)]
  rw [← LineParts.withCode_code text, LineParts.withCode, blanksPartWords_append,
    blanksPartWords_append] at blanksPart
  exact replaces.spent_replaceCallsFrom notSuspension laterReplaces plain other _ _
    ((replaces.isDoneWith_iff text).mp done) blanksPart.1.2

end ReplacesCalls

/-- The text a rule leaves of a line that it does not split. -/
def Line.leftBy
    (rule : UpliftRule)
    (above : Text)
    (line : Line) :
    Text :=
  if line.isStatement then ((rule.apply above line.text).map (·.first)).getD line.text
  else line.text

theorem applyToLine_fst
    {rule : UpliftRule}
    (whole : rule.splits = false)
    (above : Text)
    (line : Line) :
    (applyToLine rule above line).1 = [{ line with text := line.leftBy rule above }] := by
  unfold applyToLine Line.leftBy
  split
  · cases matched : rule.apply above line.text with
    | none =>
        rfl
    | some replacement =>
        obtain ⟨noOthers, _⟩ := UpliftRule.apply_spec_of_not_splits whole matched
        dsimp only
        rw [noOthers]
        rfl
  · rfl

/-- Every line a rule leaves, when it splits none, is what it leaves of a line. -/
theorem Source.exists_of_mem_applyEverywhere
    {rule : UpliftRule}
    (whole : rule.splits = false)
    {source : Source}
    {out : Line}
    (member : out ∈ (source.applyEverywhere rule).lines) :
    ∃ line ∈ source.lines, ∃ above, out.number = line.number ∧ out.text = line.leftBy rule above := by
  have each := applyToEach_forall₂ rule [] source.lines
  rcases source.applyEverywhere_cases rule with ⟨noCounts, same⟩ | ⟨total, _, replaced⟩
  · rw [same] at member
    obtain ⟨result, isResult, above, rfl⟩ := exists_right_of_forall₂ each member
    refine ⟨out, member, above, rfl, ?_⟩
    rcases applyToLine_cases rule above out with kept | ⟨replacement, _, _, counted⟩
    · have sole := applyToLine_fst whole above out
      rw [kept] at sole
      exact congrArg Line.text (List.singleton_inj.mp sole)
    · have among : replacement.count ∈ (applyToEach rule [] source.lines).filterMap Prod.snd :=
        List.mem_filterMap.mpr ⟨_, isResult, by rw [counted]⟩
      rw [noCounts] at among
      cases among
  · rw [replaced] at member
    obtain ⟨left, isLeft, sameNumber, sameText⟩ := exists_of_mem_refreshLines member
    obtain ⟨result, isResult, among⟩ := List.mem_flatMap.mp isLeft
    obtain ⟨line, isLine, above, rfl⟩ := exists_left_of_forall₂ each isResult
    rw [applyToLine_fst whole, List.mem_singleton] at among
    refine ⟨line, isLine, above, ?_, ?_⟩
    · rw [sameNumber, among]
    · rw [sameText, among]

end ScriptUplift
