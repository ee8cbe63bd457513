import Mathlib.Tactic.Common
import ScriptUplift.Proofs.CommentedOut
import ScriptUplift.Proofs.CommentBorder
import ScriptUplift.Proofs.ExportMarks
import ScriptUplift.Proofs.UpliftTrace

namespace ScriptUplift

/-!
# What uplift puts at the front of a line

A rule matches code only, and what it puts in front of what is left is code: an
annotation, a keyword or a name.  Uplift therefore turns no line into a comment.
-/

/-- The first character behind the indentation does not begin a comment. -/
def Text.BeginsInCode
    (text : Text) :
    Prop :=
  ∃ first rest, text.dropIndentation = first :: rest ∧ first ≠ '#'

namespace Text.BeginsInCode

variable {text : Text}

theorem not_isComment
    (begins : text.BeginsInCode) :
    ¬ text.IsComment := by
  rintro ⟨comment, shape⟩
  obtain ⟨first, rest, front, noComment⟩ := begins
  rw [shape] at front
  exact noComment (List.cons.inj front).1.symm

/-- Where text is put in, what stands there then begins with that text or with what stood before. -/
theorem splice
    {above old : Text}
    (begins : Text.BeginsInCode (above ++ old))
    {put : Text}
    (putBegins : put.BeginsInCode)
    (behind : Text) :
    Text.BeginsInCode (above ++ (put ++ behind)) := by
  obtain ⟨first, rest, front, noComment⟩ := begins
  obtain ⟨putFirst, putRest, putFront, putNoComment⟩ := putBegins
  unfold dropIndentation at front putFront
  unfold BeginsInCode dropIndentation
  rw [List.dropWhile_append] at front ⊢
  split at front
  · rename_i indents
    rw [if_pos indents, List.dropWhile_append, putFront]
    exact ⟨putFirst, _, rfl, putNoComment⟩
  · rename_i codeAbove
    rw [if_neg codeAbove]
    obtain ⟨other, others, aboveFront⟩ := List.exists_cons_of_ne_nil
      (by simpa using codeAbove : above.dropWhile isIndentChar ≠ [])
    rw [aboveFront] at front ⊢
    exact ⟨other, _, rfl, (List.cons.inj front).1 ▸ noComment⟩

theorem append
    (begins : text.BeginsInCode)
    (behind : Text) :
    Text.BeginsInCode (text ++ behind) := by
  have whole : Text.BeginsInCode ([] ++ text) := begins
  exact whole.splice begins behind

/-- Indentation in front of code changes nothing. -/
theorem indent
    (begins : text.BeginsInCode)
    {leading : Text}
    (indents : leading.all isIndentChar = true) :
    Text.BeginsInCode (leading ++ text) := by
  obtain ⟨first, rest, front, noComment⟩ := begins
  refine ⟨first, rest, ?_, noComment⟩
  rw [← front]
  exact List.dropWhile_append_of_pos (List.all_eq_true.mp indents)

theorem of_isIdentifierChar
    {first : Char}
    (letter : isIdentifierChar first = true)
    (rest : Text) :
    Text.BeginsInCode (first :: rest) := by
  refine ⟨first, rest, ?_, ?_⟩
  · exact List.dropWhile_cons_of_neg (by simp [isIndentChar_of_isIdentifierChar letter])
  · rintro rfl
    exact absurd letter (by decide)

/-- A text with a word at its front begins in code. -/
theorem of_firstWord
    (someWord : (firstWord text).1 ≠ []) :
    text.BeginsInCode := by
  unfold firstWord at someWord
  cases front : text.dropIndentation with
  | nil =>
      rw [front] at someWord
      exact absurd rfl someWord
  | cons first rest =>
      refine ⟨first, rest, front, ?_⟩
      rintro rfl
      rw [front] at someWord
      exact absurd rfl someWord

end Text.BeginsInCode

namespace LineParts

theorem all_isIndentChar_indentation
    (text : Text) :
    (ofText text).indentation.all isIndentChar = true :=
  List.all_eq_true.mpr fun _ member => List.mem_takeWhile_imp member

/-- The code of a line begins in code, unless there is none. -/
theorem beginsInCode_code
    {text : Text}
    (someCode : (ofText text).code ≠ []) :
    (ofText text).code.BeginsInCode := by
  obtain ⟨first, rest, front⟩ := List.exists_cons_of_ne_nil someCode
  refine ⟨first, rest, (dropIndentation_code text).trans front, ?_⟩
  rintro rfl
  have shape : (ofText text).indentation ++ '#' :: (rest ++ (ofText text).comment) = text := by
    conv_rhs => rw [← withCode_code text, withCode, front, List.append_assoc, List.cons_append]
  have same : text.SameCode ('#' :: (rest ++ (ofText text).comment)) := by
    have indents := List.all_eq_true.mp (all_isIndentChar_indentation text)
    have dropped : ((ofText text).indentation ++ '#' :: (rest ++ (ofText text).comment)).dropWhile
        isIndentChar = ('#' :: (rest ++ (ofText text).comment)).dropWhile isIndentChar :=
      List.dropWhile_append_of_pos indents
    rw [shape] at dropped
    exact dropped
  have nothing : (ofText ('#' :: (rest ++ (ofText text).comment))).code = [] := by
    rw [ofText, Scan.line_comment]
    rfl
  exact someCode ((code_eq_of_sameCode same).trans nothing)

theorem beginsInCode_withCode
    (text : Text)
    {code : Text}
    (begins : code.BeginsInCode) :
    ((ofText text).withCode code).BeginsInCode :=
  (begins.indent (all_isIndentChar_indentation text)).append _

end LineParts

/-! ## Rules -/

/-- Where calls are replaced, code stands at the front as before. -/
theorem ReplacesCalls.beginsInCode_replaceCallsFrom
    {rule : UpliftRule}
    {callee : String}
    {build : List Text → Option Text}
    (replaces : ReplacesCalls rule callee build)
    (limit rank : Nat)
    {code : Text}
    (begins : code.BeginsInCode) :
    Text.BeginsInCode (replaceCallsFrom callee.toList build limit rank code).1 := by
  refine replaceCallsFrom_preserves replaces.calleeName Text.BeginsInCode ?_ limit rank begins
  intro above old rest pieces new _ called built before
  have operand := replaces.operand
    (fun _ member => isClosed_of_mem_argumentsOf called.closed member) built
  obtain ⟨first, others, rfl, word⟩ := operand.exists_head
  exact before.splice (.of_isIdentifierChar word others) rest

theorem ReplacesCalls.beginsInCode_of_apply
    {rule : UpliftRule}
    {callee : String}
    {build : List Text → Option Text}
    (replaces : ReplacesCalls rule callee build)
    {above text : Text}
    {replacement : Replacement}
    (matched : rule.apply above text = some replacement) :
    replacement.first.BeginsInCode := by
  rw [replaces.apply_eq] at matched
  obtain ⟨replaced, rfl⟩ := replaceCalls_eq_some matched
  refine LineParts.beginsInCode_withCode text (replaces.beginsInCode_replaceCallsFrom _ _ ?_)
  refine LineParts.beginsInCode_code fun noCode => ?_
  rw [noCode] at replaced
  have nothing : replaceCallsFrom callee.toList build maxCallsPerLine 0 [] = ([], 0) := by
    rcases replaceCallsFrom_succ callee.toList build 31 0 [] with ends | ⟨call, _, _, isCall, _⟩
    · exact ends
    · cases isCall
  rw [nothing] at replaced
  exact replaced rfl

/-- Where stuttered callees are collapsed, code stands at the front as before. -/
theorem beginsInCode_collapsed
    (calls : List Call)
    {code : Text}
    (begins : code.BeginsInCode) :
    (collapsed calls code).BeginsInCode := by
  induction calls with
  | nil =>
      exact begins
  | cons call rest inductionHypothesis =>
      have callee : Text.BeginsInCode "preload".toList :=
        .of_isIdentifierChar (by decide) _
      have before : Text.BeginsInCode ((collapsed rest code).take call.start ++
          (collapsed rest code).drop call.start) := by
        rwa [List.take_append_drop]
      rw [collapsed, List.foldr_cons, ← collapsed, List.append_assoc]
      exact before.splice callee _

theorem Text.BeginsInCode.withDeclaredType
    {declaration : Text}
    (begins : declaration.BeginsInCode)
    (type : Text) :
    (ScriptUplift.withDeclaredType declaration type).BeginsInCode := by
  unfold ScriptUplift.withDeclaredType
  dsimp only
  split
  · exact begins
  · split
    · exact begins
    · simp only [List.append_assoc]
      exact .append (.of_isIdentifierChar (by decide) _) _

namespace ExportForm

theorem beginsInCode_of_sign
    {name : Text}
    (sign : name.head? = some '@') :
    name.BeginsInCode := by
  cases name with
  | nil =>
      cases sign
  | cons first rest =>
      obtain rfl := Option.some.inj sign
      exact ⟨'@', rest, rfl, by decide⟩

/-- Every annotation of an export begins with the sign for annotations. -/
theorem beginsInCode_mark
    (arguments : List Text) :
    (ofArguments arguments).mark.BeginsInCode := by
  have begins {mark : Text} (isMark : IsMark arguments mark) : mark.BeginsInCode := by
    cases isMark with
    | bare named =>
        exact beginsInCode_of_sign named.sign
    | list named _ =>
        exact (((beginsInCode_of_sign named.sign).append _).append _).append _
  exact begins (isMark_ofArguments arguments)

end ExportForm

theorem beginsInCode_of_upliftToolDirective
    {text : Text}
    {replacement : Replacement}
    (matched : upliftToolDirective text = some replacement) :
    replacement.first.BeginsInCode := by
  obtain ⟨_, rfl⟩ := upliftToolDirective_eq_some matched
  exact LineParts.beginsInCode_withCode text
    (.append (ExportForm.beginsInCode_of_sign (by decide)) _)

theorem beginsInCode_of_upliftPreloads
    {text : Text}
    {replacement : Replacement}
    (matched : upliftPreloads text = some replacement) :
    replacement.first.BeginsInCode := by
  obtain ⟨someCall, rfl⟩ := upliftPreloads_eq_some matched
  refine LineParts.beginsInCode_withCode text (beginsInCode_collapsed _ ?_)
  refine LineParts.beginsInCode_code fun noCode => someCall ?_
  rw [noCode]
  rfl

theorem beginsInCode_of_upliftDeferredInit
    {above text : Text}
    {replacement : Replacement}
    (matched : upliftDeferredInit above text = some replacement) :
    ∀ out ∈ replacement.lines, out.BeginsInCode := by
  obtain ⟨_, isDeclared, shape⟩ := upliftDeferredInit_eq_some matched
  have declaration : Text.BeginsInCode
      (firstWord (LineParts.ofText text).code).2.dropIndentation :=
    .of_firstWord (by rw [isDeclared]; decide)
  have declares := LineParts.beginsInCode_withCode text declaration
  rcases shape with rfl | rfl
  · exact List.forall_mem_cons.mpr ⟨declares, nofun⟩
  · have annotated : Text.BeginsInCode
        ((LineParts.ofText text).indentation ++ "@onready".toList) :=
      .indent (ExportForm.beginsInCode_of_sign (by decide))
        (LineParts.all_isIndentChar_indentation text)
    exact List.forall_mem_cons.mpr ⟨annotated, List.forall_mem_cons.mpr ⟨declares, nofun⟩⟩

theorem beginsInCode_of_upliftExportedField
    {above text : Text}
    {replacement : Replacement}
    (matched : upliftExportedField above text = some replacement) :
    ∀ out ∈ replacement.lines, out.BeginsInCode := by
  obtain ⟨legacy, found, shape⟩ := upliftExportedField_eq_some matched
  have declaration : legacy.declaration.BeginsInCode :=
    .of_firstWord (by rw [LegacyExport.declaration_var found]; decide)
  have deferred {code : Text} (begins : code.BeginsInCode) :
      Text.BeginsInCode ((if legacy.onready then "onready ".toList else []) ++ code) := by
    split
    · exact .append (.of_isIdentifierChar (by decide) _) code
    · exact begins
  rcases shape with rfl | rfl
  · exact List.forall_mem_cons.mpr
      ⟨LineParts.beginsInCode_withCode text (deferred declaration), nofun⟩
  · have annotated : Text.BeginsInCode ((LineParts.ofText text).indentation ++
        (ExportForm.ofArguments legacy.arguments).mark) :=
      .indent (ExportForm.beginsInCode_mark _) (LineParts.all_isIndentChar_indentation text)
    refine List.forall_mem_cons.mpr ⟨annotated, List.forall_mem_cons.mpr ⟨?_, nofun⟩⟩
    exact LineParts.beginsInCode_withCode text (deferred (declaration.withDeclaredType _))

/-- Every line a rule leaves of a line it matches begins in code. -/
theorem UpliftRule.beginsInCode_of_apply
    {rule : UpliftRule}
    {above text : Text}
    {replacement : Replacement}
    (matched : rule.apply above text = some replacement) :
    ∀ out ∈ replacement.lines, out.BeginsInCode := by
  have whole (splits : rule.splits = false) (first : replacement.first.BeginsInCode) :
      ∀ out ∈ replacement.lines, out.BeginsInCode := by
    rw [Replacement.lines, (apply_spec_of_not_splits splits matched).1]
    exact List.forall_mem_cons.mpr ⟨first, nofun⟩
  cases rule with
  | toolDirective =>
      exact whole rfl (beginsInCode_of_upliftToolDirective matched)
  | preloadStutter =>
      exact whole rfl (beginsInCode_of_upliftPreloads matched)
  | exportedField =>
      exact beginsInCode_of_upliftExportedField matched
  | deferredInit =>
      exact beginsInCode_of_upliftDeferredInit matched
  | connect =>
      exact whole rfl (ReplacesCalls.connect.beginsInCode_of_apply matched)
  | disconnect =>
      exact whole rfl (ReplacesCalls.disconnect.beginsInCode_of_apply matched)
  | isConnected =>
      exact whole rfl (ReplacesCalls.isConnected.beginsInCode_of_apply matched)
  | emit =>
      exact whole rfl (ReplacesCalls.emit.beginsInCode_of_apply matched)
  | suspension =>
      exact whole rfl (ReplacesCalls.suspension.beginsInCode_of_apply matched)

/-! ## The stage -/

namespace Source

/-- What holds of every text of a file and of all that a rule leaves holds after the rule. -/
theorem forall_texts_applyEverywhere
    {rule : UpliftRule}
    {holds : Text → Prop}
    (step : ∀ above text replacement, rule.apply above text = some replacement →
      ∀ out ∈ replacement.lines, holds out)
    {source : Source}
    (start : ∀ text ∈ source.texts, holds text) :
    ∀ text ∈ (source.applyEverywhere rule).texts, holds text := by
  rcases source.applyEverywhere_cases rule with ⟨_, same⟩ | ⟨total, _, applied⟩
  · rw [same]
    exact start
  · have texts : (source.applyEverywhere rule).texts =
        ((applyToEach rule [] source.lines).flatMap Prod.fst).map (·.text) := by
      rw [applied]
      exact refreshLines_texts _ _
    rw [texts]
    refine List.forall_mem_map.mpr fun out isOut => ?_
    obtain ⟨result, isResult, amongResult⟩ := List.mem_flatMap.mp isOut
    obtain ⟨line, isLine, above, rfl⟩ :=
      exists_left_of_forall₂ (applyToEach_forall₂ rule [] source.lines) isResult
    rcases applyToLine_cases rule above line with alone | ⟨replacement, _, matched, replaced⟩
    · rw [alone, List.mem_singleton] at amongResult
      rw [amongResult]
      exact start line.text (List.mem_map_of_mem isLine)
    · rw [replaced] at amongResult
      have left : out.text ∈ replacement.lines := by
        have isText := List.mem_map_of_mem (f := (·.text)) amongResult
        simpa [Replacement.lines, Function.comp_def] using isText
      exact step above line.text replacement matched out.text left

/-- What holds of every text of a file and of all that its rules leave holds after the rules. -/
theorem forall_texts_upliftStage
    {rules : List UpliftRule}
    {holds : Text → Prop}
    (step : ∀ rule ∈ rules, ∀ above text replacement, rule.apply above text = some replacement →
      ∀ out ∈ replacement.lines, holds out)
    {source : Source}
    (start : ∀ text ∈ source.texts, holds text) :
    ∀ text ∈ (source.upliftStage rules).texts, holds text := by
  unfold upliftStage
  rw [← texts_register source (rules.map (·.name))] at start
  generalize source.register (rules.map (·.name)) = entered at start
  induction rules generalizing entered with
  | nil =>
      exact start
  | cons rule rest inductionHypothesis =>
      obtain ⟨firstStep, otherSteps⟩ := List.forall_mem_cons.mp step
      exact inductionHypothesis otherSteps _ (forall_texts_applyEverywhere firstStep start)

/-- Uplift turns no line into a comment. -/
theorem upliftStage_adds_no_comment
    {holds : Text → Prop}
    (comments : ∀ text, holds text → text.IsComment)
    {source : Source}
    (start : ∀ text ∈ source.texts, ¬ holds text)
    (rules : List UpliftRule) :
    ∀ text ∈ (source.upliftStage rules).texts, ¬ holds text := by
  refine forall_texts_upliftStage ?_ start
  intro rule _ above text replacement matched out isOut isHeld
  exact (UpliftRule.beginsInCode_of_apply matched out isOut).not_isComment (comments out isHeld)

end Source

end ScriptUplift
