import Mathlib.Data.List.DropRight
import Mathlib.Data.List.Forall2
import Mathlib.Tactic.Common
import ScriptUplift.Indent.Repair

namespace ScriptUplift

/-!
# Indentation repair moves nothing but indentation

Two texts have the same code when they agree after their leading spaces and
tabs.  Whatever a repair does to a line, the line keeps its number and its code.
-/

/-- What is related to an element on the left of two lists related line by line. -/
theorem exists_right_of_forall₂
    {α β : Type}
    {related : α → β → Prop}
    {first : List α}
    {second : List β}
    (each : List.Forall₂ related first second)
    {element : α}
    (member : element ∈ first) :
    ∃ other ∈ second, related element other := by
  induction each with
  | nil =>
      simp at member
  | cons holds _ inductionHypothesis =>
      rcases List.mem_cons.mp member with rfl | inRest
      · exact ⟨_, List.mem_cons_self, holds⟩
      · obtain ⟨other, isOther, otherHolds⟩ := inductionHypothesis inRest
        exact ⟨other, List.mem_cons_of_mem _ isOther, otherHolds⟩

/-- What is related to an element on the right of two lists related line by line. -/
theorem exists_left_of_forall₂
    {α β : Type}
    {related : α → β → Prop}
    {first : List α}
    {second : List β}
    (each : List.Forall₂ related first second)
    {element : β}
    (member : element ∈ second) :
    ∃ other ∈ first, related other element :=
  exists_right_of_forall₂ each.flip member

/-- Lists related line by line are alike in every view that the relation keeps. -/
theorem map_eq_of_forall₂
    {α β γ : Type}
    {first : α → γ}
    {second : β → γ}
    {elements : List α}
    {others : List β}
    (each : List.Forall₂ (fun element other => second other = first element) elements others) :
    others.map second = elements.map first := by
  induction each with
  | nil =>
      rfl
  | cons same _ inductionHypothesis =>
      rw [List.map_cons, List.map_cons, same, inductionHypothesis]

namespace Text

/-- Two texts agree after their leading spaces and tabs. -/
def SameCode
    (first second : Text) :
    Prop :=
  first.dropIndentation = second.dropIndentation

namespace SameCode

theorem refl
    (text : Text) :
    SameCode text text :=
  rfl

theorem trans
    {first second third : Text}
    (firstSecond : SameCode first second)
    (secondThird : SameCode second third) :
    SameCode first third :=
  Eq.trans firstSecond secondThird

theorem symm
    {first second : Text}
    (same : SameCode first second) :
    SameCode second first :=
  Eq.symm same

theorem append_left
    {leading : Text}
    (indents : ∀ character ∈ leading, isIndentChar character = true)
    (text : Text) :
    SameCode text (leading ++ text) :=
  (List.dropWhile_append_of_pos indents).symm

theorem dropIndentation
    (text : Text) :
    SameCode text text.dropIndentation :=
  (List.dropWhile_idempotent _ _).symm

end SameCode

/-- A text is blank when what follows its indentation is. -/
theorem isBlank_dropIndentation
    (text : Text) :
    isBlank text.dropIndentation = isBlank text := by
  have leadingBlank : isBlank text.indentation = true := by
    rw [isBlank, List.all_eq_true]
    intro character member
    exact isBlankChar_of_isIndentChar (List.mem_takeWhile_imp member)
  calc
    isBlank text.dropIndentation
      = (isBlank text.indentation && isBlank text.dropIndentation) := by
        rw [leadingBlank, Bool.true_and]
    _ = isBlank (text.indentation ++ text.dropIndentation) :=
        (isBlank_append _ _).symm
    _ = isBlank text := by
        rw [indentation_append_dropIndentation]

/-- Texts with the same code are blank together. -/
theorem SameCode.isBlank_eq
    {first second : Text}
    (same : SameCode first second) :
    isBlank first = isBlank second := by
  rw [← isBlank_dropIndentation first, same, isBlank_dropIndentation second]

/-- Code behind spaces and tabs is indented by them and nothing more. -/
theorem indentation_append_code
    {leading : Text}
    (indents : ∀ character ∈ leading, isIndentChar character = true)
    (text : Text) :
    (leading ++ text.dropIndentation).indentation = leading := by
  have nothing : text.dropIndentation.takeWhile isIndentChar = [] := by
    rw [List.takeWhile_eq_nil_iff]
    intro someCode
    exact List.dropWhile_get_zero_not isIndentChar text someCode
  rw [indentation, List.takeWhile_append_of_pos indents, nothing, List.append_nil]

/-- Whether a text has code does not depend on what stands in front of the code. -/
theorem all_isIndentChar_append_code
    {leading : Text}
    (indents : ∀ character ∈ leading, isIndentChar character = true)
    (text : Text) :
    (leading ++ text.dropIndentation).all isIndentChar = text.all isIndentChar := by
  have leadIndents : leading.all isIndentChar = true := by
    rw [List.all_eq_true]
    exact indents
  have ownIndents : text.indentation.all isIndentChar = true := by
    rw [List.all_eq_true]
    exact fun _ member => List.mem_takeWhile_imp member
  calc
    (leading ++ text.dropIndentation).all isIndentChar
      = text.dropIndentation.all isIndentChar := by
        rw [List.all_append, leadIndents, Bool.true_and]
    _ = (text.indentation ++ text.dropIndentation).all isIndentChar := by
        rw [List.all_append, ownIndents, Bool.true_and]
    _ = text.all isIndentChar := by
        rw [indentation_append_dropIndentation]

end Text

namespace IndentUnit

theorem isIndentChar_of_mem_lead
    {unit : IndentUnit}
    {depth : Nat}
    {character : Char}
    (member : character ∈ unit.lead depth) :
    isIndentChar character = true := by
  unfold lead at member
  split at member
  · rw [List.eq_of_mem_replicate member]
    decide
  · rw [List.eq_of_mem_replicate member]
    decide

@[simp] theorem lead_zero
    (unit : IndentUnit) :
    unit.lead 0 = [] := by
  simp [lead]

/-- Levels are written one after another. -/
theorem lead_append_lead
    (unit : IndentUnit)
    (first second : Nat) :
    unit.lead first ++ unit.lead second = unit.lead (first + second) := by
  unfold lead
  split
  · rw [← List.replicate_add, Nat.add_mul]
  · rw [← List.replicate_add]

/-- Moving a text to the right keeps its code. -/
theorem sameCode_lead_append
    (unit : IndentUnit)
    (depth : Nat)
    (text : Text) :
    Text.SameCode text (unit.lead depth ++ text) :=
  .append_left (fun _ => isIndentChar_of_mem_lead) text

theorem sameCode_reindent
    (unit : IndentUnit)
    (text : Text)
    (depth : Nat) :
    Text.SameCode text (unit.reindent text depth) :=
  (Text.SameCode.dropIndentation text).trans (unit.sameCode_lead_append depth _)

theorem sameCode_of_afterHead?
    {text head rest : Text}
    (indents : ∀ character ∈ head, isIndentChar character = true)
    (found : text.afterHead? head = some rest) :
    Text.SameCode text rest := by
  unfold Text.afterHead? at found
  split at found
  · rename_i starts
    obtain ⟨after, rfl⟩ := List.isPrefixOf_iff_prefix.mp starts
    have isRest : after = rest := by
      simpa using found
    rw [← isRest]
    exact (Text.SameCode.append_left indents after).symm
  · cases found

theorem sameCode_of_dropLevel?
    {unit : IndentUnit}
    {text rest : Text}
    (dropped : unit.dropLevel? text = some rest) :
    Text.SameCode text rest := by
  unfold dropLevel? at dropped
  split at dropped
  · rename_i after tabbed
    rw [← Option.some.inj dropped]
    exact sameCode_of_afterHead? (by simp [isIndentChar]) tabbed
  · split at dropped
    · exact sameCode_of_afterHead? (fun _ => isIndentChar_of_mem_lead) dropped
    · cases dropped

theorem sameCode_dropLevels
    (unit : IndentUnit)
    (levels : Nat)
    (text : Text) :
    Text.SameCode text (unit.dropLevels levels text) := by
  induction levels generalizing text with
  | zero =>
      exact .refl text
  | succ levels inductionHypothesis =>
      unfold dropLevels
      split
      · rename_i rest dropped
        exact (sameCode_of_dropLevel? dropped).trans (inductionHypothesis rest)
      · exact .refl text

/-- Moving a text keeps its code. -/
theorem sameCode_shift
    (unit : IndentUnit)
    (levels : Int)
    (text : Text) :
    Text.SameCode text (unit.shift levels text) := by
  unfold shift
  split
  · exact unit.sameCode_lead_append _ text
  · exact unit.sameCode_dropLevels _ text

/-- A line that was given an indentation begins with it and nothing more. -/
theorem indentation_reindent
    (unit : IndentUnit)
    (text : Text)
    (depth : Nat) :
    (unit.reindent text depth).indentation = unit.lead depth :=
  Text.indentation_append_code (fun _ => isIndentChar_of_mem_lead) text

/-- Where a line stood before it was given an indentation does not matter. -/
theorem reindent_reindent
    (unit : IndentUnit)
    (text : Text)
    (first second : Nat) :
    unit.reindent (unit.reindent text first) second = unit.reindent text second :=
  congrArg (unit.lead second ++ ·) (unit.sameCode_reindent text first).symm

/-- A text is indentation and nothing more when the code after its indentation is. -/
theorem all_isIndentChar_reindent
    (unit : IndentUnit)
    (text : Text)
    (depth : Nat) :
    (unit.reindent text depth).all isIndentChar = text.all isIndentChar :=
  Text.all_isIndentChar_append_code (fun _ => isIndentChar_of_mem_lead) text

/-- A line with code is found at the depth it was moved to. -/
theorem depth_reindent
    (unit : IndentUnit)
    {text : Text}
    (code : text.all isIndentChar = false)
    (depth : Nat) :
    unit.depth (unit.reindent text depth) = depth := by
  unfold IndentUnit.depth
  rw [all_isIndentChar_reindent, code, if_neg Bool.false_ne_true, indentation_reindent]
  unfold lead spacesPerLevel
  by_cases spaced : unit.writesSpaces = true
  · have wide : 0 < unit.width.toNat := by
      simp only [writesSpaces, Bool.and_eq_true, decide_eq_true_eq] at spaced
      omega
    have levels : (depth * unit.width.toNat + unit.width.toNat - 1) / unit.width.toNat = depth := by
      rw [Nat.add_sub_assoc wide, Nat.mul_comm, Nat.mul_add_div wide,
        Nat.div_eq_of_lt (Nat.sub_lt wide Nat.one_pos), Nat.add_zero]
    simp [spaced, List.count_replicate, levels]
  · simp [spaced, List.count_replicate]

end IndentUnit

namespace Indent

/-- Whatever a repair does to the front of a line, the code stays. -/
theorem Move.sameCode
    (unit : IndentUnit)
    (text : Text)
    (move : Move) :
    text.SameCode (move.text unit text) := by
  cases move with
  | stay =>
      exact .refl text
  | indent depth =>
      exact unit.sameCode_reindent text depth
  | shift levels =>
      exact unit.sameCode_shift levels text

/-- A plan holds the lines it was made for, which learn nothing but their scope. -/
theorem planLines_scoped
    (frames : List Frame)
    (shift : Int)
    (lines : List Line) :
    List.Forall₂ (fun line planned => planned.line = { line with scope := planned.line.scope })
      lines (planLines frames shift lines) := by
  fun_induction planLines frames shift lines with
  | case1 =>
      exact .nil
  | case2 frames shift line rest continues inductionHypothesis =>
      exact .cons rfl inductionHypothesis
  | case3 frames shift line rest starts trivia inductionHypothesis =>
      exact .cons rfl inductionHypothesis
  | case4 frames shift line rest starts code around target inside inductionHypothesis =>
      exact .cons rfl inductionHypothesis

/-- Repair keeps the number and the code of every line. -/
theorem repairLines_sameCode
    (unit : IndentUnit)
    (frames : List Frame)
    (shift : Int)
    (lines : List Line) :
    List.Forall₂
      (fun before after => after.number = before.number ∧ before.text.SameCode after.text)
      lines (repairLines unit frames shift lines) := by
  unfold repairLines
  rw [List.forall₂_map_right_iff]
  refine (planLines_scoped frames shift lines).imp fun line planned sameLine => ?_
  have text : planned.line.text = line.text := by
    rw [sameLine]
  have number : planned.line.number = line.number := by
    rw [sameLine]
  exact ⟨number, text ▸ planned.move.sameCode unit planned.line.text⟩

end Indent

end ScriptUplift
