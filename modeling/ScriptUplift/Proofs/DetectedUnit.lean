import Mathlib.Data.List.ReduceOption
import Mathlib.Data.Prod.Lex
import Mathlib.Data.Set.Card
import Mathlib.Order.Bounds.Basic
import Mathlib.Tactic.Common
import ScriptUplift.Proofs.Handoff

namespace ScriptUplift

/-!
# The unit that is detected

A file takes a step where the statement below a block opener stands deeper than
the opener.  Steps are found here by the places of their statements and counted
by place, without the lists that detection cuts out of a file.

Detection takes the most common step, and the smallest of several.  A table of
the counts can be visited in any order to find it: the step that stays is the
greatest under a linear order, so what is visited matters and its order does not.
-/

namespace IndentUnit

/-! ## Counts that are visited in some order -/

/-- A step and how often it is taken. -/
structure StepCount where
  step : Nat
  count : Nat
  deriving Repr, DecidableEq

namespace StepCount

/-- More common steps rank higher, and smaller ones among those that are equally common. -/
def rank
    (entry : StepCount) :
    Nat ×ₗ Natᵒᵈ :=
  toLex (entry.count, OrderDual.toDual entry.step)

theorem rank_injective : Function.Injective rank := by
  intro first second same
  have counts := congrArg (fun rank => (ofLex rank).1) same
  have steps := congrArg (fun rank => OrderDual.ofDual (ofLex rank).2) same
  cases first
  cases second
  cases counts
  cases steps
  rfl

instance : LinearOrder StepCount :=
  LinearOrder.lift' rank rank_injective

theorem lt_iff
    {first second : StepCount} :
    first < second ↔
      first.count < second.count ∨ first.count = second.count ∧ second.step < first.step :=
  Prod.Lex.lt_iff

/-- What stands before any count is visited. -/
def nothing : StepCount :=
  ⟨0, 0⟩

/-- Visit one more count: a more common step replaces the best one, and so does a smaller one. -/
def visit
    (best met : StepCount) :
    StepCount :=
  if best.count < met.count ∨ met.count = best.count ∧ met.step < best.step then met else best

/-- The step that stays when the counts are visited one after another. -/
def best
    (counts : List StepCount) :
    StepCount :=
  counts.foldl visit nothing

theorem visit_eq_max
    (best met : StepCount) :
    visit best met = max best met := by
  have replaces : (best.count < met.count ∨ met.count = best.count ∧ met.step < best.step) ↔
      best < met := by
    rw [lt_iff, eq_comm]
  unfold visit
  rw [if_congr replaces rfl rfl]
  split
  · rename_i below
    exact (max_eq_right below.le).symm
  · rename_i notBelow
    exact (max_eq_left (not_lt.mp notBelow)).symm

/-- A visit of several counts leaves the greatest of them and of what stood before. -/
theorem isGreatest_foldl_visit
    (start : StepCount)
    (counts : List StepCount) :
    IsGreatest {entry | entry ∈ start :: counts} (counts.foldl visit start) := by
  induction counts generalizing start with
  | nil =>
      simp
  | cons met rest inductionHypothesis =>
      obtain ⟨found, above⟩ := inductionHypothesis (visit start met)
      rw [visit_eq_max] at found above
      have aboveMax : max start met ≤ rest.foldl visit (max start met) :=
        above List.mem_cons_self
      rw [List.foldl_cons, visit_eq_max]
      constructor
      · rcases List.mem_cons.mp found with isMax | inRest
        · show _ ∈ start :: met :: rest
          rw [isMax]
          rcases max_choice start met with isStart | isMet
          · simp [isStart]
          · simp [isMet]
        · exact List.mem_cons_of_mem _ (List.mem_cons_of_mem _ inRest)
      · intro entry member
        rcases List.mem_cons.mp member with rfl | member
        · exact (le_max_left _ _).trans aboveMax
        · rcases List.mem_cons.mp member with rfl | inRest
          · exact (le_max_right _ _).trans aboveMax
          · exact above (List.mem_cons_of_mem _ inRest)

/-- The order of a visit and how often a count is met do not matter. -/
theorem best_eq_of_mem_iff
    {counts others : List StepCount}
    (same : ∀ entry, entry ∈ counts ↔ entry ∈ others) :
    best counts = best others := by
  refine (isGreatest_foldl_visit nothing counts).unique ?_
  have members : {entry | entry ∈ nothing :: counts} = {entry | entry ∈ nothing :: others} := by
    ext entry
    simp [same]
  rw [members]
  exact isGreatest_foldl_visit nothing others

/-- The best of several counts is one of them, if none of them is empty. -/
theorem isGreatest_best
    {counts : List StepCount}
    (occupied : counts ≠ [])
    (positive : ∀ entry ∈ counts, 0 < entry.count) :
    IsGreatest {entry | entry ∈ counts} (best counts) := by
  obtain ⟨found, above⟩ := isGreatest_foldl_visit nothing counts
  refine ⟨?_, fun entry member => above (List.mem_cons_of_mem _ member)⟩
  refine (List.mem_cons.mp found).resolve_left fun isNothing => ?_
  obtain ⟨entry, member⟩ := List.exists_mem_of_ne_nil counts occupied
  have aboveNothing : nothing < entry :=
    lt_iff.mpr (.inl (positive entry member))
  exact absurd (isNothing ▸ above (List.mem_cons_of_mem _ member)) aboveNothing.not_ge

/-- A step with its count in a list of steps. -/
def countedIn
    (all : List Nat)
    (step : Nat) :
    StepCount :=
  ⟨step, all.count step⟩

theorem mem_map_countedIn
    {all : List Nat}
    {entry : StepCount} :
    entry ∈ all.map (countedIn all) ↔ 0 < entry.count ∧ entry.count = all.count entry.step := by
  rw [List.mem_map]
  constructor
  · rintro ⟨step, member, rfl⟩
    exact ⟨List.count_pos_iff.mpr member, rfl⟩
  · rintro ⟨positive, counted⟩
    refine ⟨entry.step, List.count_pos_iff.mp (counted ▸ positive), ?_⟩
    rw [countedIn, ← counted]

theorem visit_countedIn
    (all : List Nat)
    (first second : Nat) :
    visit (countedIn all first) (countedIn all second) =
      countedIn all (preferredStep all first second) := by
  unfold visit preferredStep countedIn
  dsimp only
  grind

/-- The step that stays is the smallest of the most common ones. -/
theorem isLeast_best
    {all : List Nat}
    (occupied : all ≠ []) :
    IsLeast {step | step ∈ all ∧ ∀ other, all.count other ≤ all.count step}
      (best (all.map (countedIn all))).step := by
  have positive : ∀ entry ∈ all.map (countedIn all), 0 < entry.count :=
    fun entry member => (mem_map_countedIn.mp member).1
  obtain ⟨member, above⟩ :=
    isGreatest_best (mt List.map_eq_nil_iff.mp occupied) positive
  obtain ⟨step, inAll, isBest⟩ := List.mem_map.mp member
  rw [← isBest] at above ⊢
  have unbeaten {other : Nat} (otherInAll : other ∈ all) :
      ¬(all.count step < all.count other ∨ all.count step = all.count other ∧ other < step) :=
    fun beats => (above (List.mem_map_of_mem otherInAll)).not_gt (lt_iff.mpr beats)
  refine ⟨⟨inAll, fun other => ?_⟩, fun other common => ?_⟩
  · by_cases otherInAll : other ∈ all
    · exact not_lt.mp fun more => unbeaten otherInAll (.inl more)
    · rw [List.count_eq_zero_of_not_mem otherInAll]
      exact Nat.zero_le _
  · have atLeast : all.count step ≤ all.count other := common.2 step
    have atMost : all.count other ≤ all.count step :=
      not_lt.mp fun more => unbeaten common.1 (.inl more)
    exact not_lt.mp fun smaller => unbeaten common.1 (.inr ⟨atLeast.antisymm atMost, smaller⟩)

end StepCount

/-- Detection that visits a table of the counts, one entry after another. -/
def detectVisiting
    (counts : List StepCount)
    (texts : List Text) :
    IndentUnit :=
  if (openings texts).any (·.leading.startsWith ['\t']) then
    tabs
  else if (StepCount.best counts).step = 0 then
    tabs
  else
    spaces (StepCount.best counts).step

/-- The most common step is the one that stays when every step is visited with its count. -/
theorem commonStep?_eq
    {all : List Nat}
    (occupied : all ≠ []) :
    commonStep? all = some (StepCount.best (all.map (StepCount.countedIn all))).step := by
  cases all with
  | nil =>
      exact absurd rfl occupied
  | cons first rest =>
      have firstVisit : StepCount.nothing.visit (StepCount.countedIn (first :: rest) first) =
          StepCount.countedIn (first :: rest) first :=
        if_pos (.inl (List.count_pos_iff.mpr List.mem_cons_self))
      rw [commonStep?, StepCount.best, List.map_cons, List.foldl_cons, firstVisit, List.foldl_map,
        List.foldl_hom (StepCount.countedIn (first :: rest))
          (StepCount.visit_countedIn (first :: rest))]
      rfl

/-! ## Statements and steps by their places -/

/-- A statement starts on a line of a file: the line continues none and holds code. -/
structure StatementOn
    (texts : List Text)
    (index : Nat)
    (text : Text)
    (reading : Reading) :
    Prop where
  isLine : texts[index]? = some text
  isRead : (Reading.lines .neutral texts)[index]? = some reading
  starts : reading.continues = false
  code : reading.scan.code.isBlank = false

/--
A step is taken on a line: its statement fits on the line and ends in a colon,
and the next statement of the file stands deeper by the width of the step.
-/
inductive StepOn
    (texts : List Text)
    (index width : Nat) :
    Prop
  | intro
      {next : Nat}
      {opener deeper : Text}
      {openerRead deeperRead : Reading}
      (opens : StatementOn texts index opener openerRead)
      (colon : opensBlock openerRead.scan.code = true)
      (fits : openerRead.completes = true)
      (follows : StatementOn texts next deeper deeperRead)
      (below : index < next)
      (adjacent : ∀ between text reading,
        index < between → between < next → ¬StatementOn texts between text reading)
      (grows : opener.indentation.length < deeper.indentation.length)
      (isWidth : deeper.indentation.length - opener.indentation.length = width)

/-- The number of lines on which a step of a width is taken. -/
noncomputable def frequency
    (texts : List Text)
    (width : Nat) :
    Nat :=
  {index | StepOn texts index width}.ncard

/-- The widths of the steps that are taken most often. -/
def commonWidths
    (texts : List Text) :
    Set Nat :=
  {width | (∃ index, StepOn texts index width) ∧
    ∀ other, frequency texts other ≤ frequency texts width}

/-- Some statement of a file starts with a tab. -/
def HasTabbedStatement
    (texts : List Text) :
    Prop :=
  ∃ index text reading, StatementOn texts index text reading ∧ text.startsWith ['\t'] = true

/-- The unit that the statements of a file ask for. -/
inductive AskedFor
    (texts : List Text) :
    IndentUnit → Prop
  | tabbed
      (tabbed : HasTabbedStatement texts) :
      AskedFor texts tabs
  | flat
      (flat : ∀ index width, ¬StepOn texts index width) :
      AskedFor texts tabs
  | stepped
      {width : Nat}
      (untabbed : ¬HasTabbedStatement texts)
      (least : IsLeast (commonWidths texts) width) :
      AskedFor texts (spaces width)

/-- A table lists the widths of all steps of a file and how often each is taken, in any order. -/
def Tabulates
    (counts : List StepCount)
    (texts : List Text) :
    Prop :=
  ∀ entry, entry ∈ counts ↔ 0 < entry.count ∧ entry.count = frequency texts entry.step

/-! ## The steps of a list of marks -/

/-- For each line of a file, the statement that starts on it, if one does. -/
def marks
    (texts : List Text) :
    List (Option Opening) :=
  (texts.zip (Reading.lines .neutral texts)).map fun pair => Opening.ofReading? pair.1 pair.2

theorem openings_eq
    (texts : List Text) :
    openings texts = (marks texts).reduceOption := by
  rw [openings, marks, List.reduceOption, List.filterMap_map]
  rfl

theorem getElem?_marks
    {texts : List Text}
    {index : Nat}
    {opening : Opening} :
    (marks texts)[index]? = some (some opening) ↔
      ∃ text reading, StatementOn texts index text reading ∧
        opening = ⟨text.indentation, opensBlock reading.scan.code && reading.completes⟩ := by
  rw [marks, List.getElem?_map, Option.map_eq_some_iff]
  constructor
  · rintro ⟨⟨text, reading⟩, isPair, isOpening⟩
    obtain ⟨isLine, isRead⟩ := List.getElem?_zip_eq_some.mp isPair
    simp only [Opening.ofReading?] at isOpening
    split at isOpening
    · cases isOpening
    · rename_i isStatement
      simp only [Bool.or_eq_true, not_or, Bool.not_eq_true] at isStatement
      exact ⟨text, reading, ⟨isLine, isRead, isStatement.1, isStatement.2⟩,
        (Option.some.inj isOpening).symm⟩
  · rintro ⟨text, reading, isStatement, rfl⟩
    refine ⟨(text, reading),
      List.getElem?_zip_eq_some.mpr ⟨isStatement.isLine, isStatement.isRead⟩, ?_⟩
    simp [Opening.ofReading?, isStatement.starts, isStatement.code]

/-- A statement opens a block, and another one stands deeper by a width. -/
structure Opening.Deepens
    (first second : Opening)
    (width : Nat) :
    Prop where
  opens : first.opensBlock = true
  grows : first.leading.length < second.leading.length
  isWidth : second.leading.length - first.leading.length = width

/-- A step from the statement on a mark to the next statement. -/
inductive StepIn
    (marks : List (Option Opening))
    (index width : Nat) :
    Prop
  | intro
      {next : Nat}
      {first second : Opening}
      (isFirst : marks[index]? = some (some first))
      (isSecond : marks[next]? = some (some second))
      (below : index < next)
      (adjacent : ∀ between opening,
        index < between → between < next → marks[between]? ≠ some (some opening))
      (deepens : first.Deepens second width)

theorem stepOn_iff
    {texts : List Text}
    {index width : Nat} :
    StepOn texts index width ↔ StepIn (marks texts) index width := by
  constructor
  · rintro ⟨opens, colon, fits, follows, below, adjacent, grows, isWidth⟩
    refine .intro (getElem?_marks.mpr ⟨_, _, opens, rfl⟩)
      (getElem?_marks.mpr ⟨_, _, follows, rfl⟩) below ?_ ⟨by simp [colon, fits], grows, isWidth⟩
    intro between opening above under isMark
    obtain ⟨text, reading, isStatement, -⟩ := getElem?_marks.mp isMark
    exact adjacent between text reading above under isStatement
  · rintro ⟨isFirst, isSecond, below, adjacent, deepens⟩
    obtain ⟨opener, openerRead, isOpener, rfl⟩ := getElem?_marks.mp isFirst
    obtain ⟨deeper, deeperRead, isDeeper, rfl⟩ := getElem?_marks.mp isSecond
    obtain ⟨colon, fits⟩ := Bool.and_eq_true_iff.mp deepens.opens
    refine .intro isOpener colon fits isDeeper below ?_ deepens.grows deepens.isWidth
    intro between text reading above under isStatement
    exact adjacent between _ above under (getElem?_marks.mpr ⟨text, reading, isStatement, rfl⟩)

theorem StepIn.lt_length
    {marks : List (Option Opening)}
    {index width : Nat}
    (step : StepIn marks index width) :
    index < marks.length := by
  obtain ⟨isFirst, -, -, -, -⟩ := step
  exact (List.getElem?_eq_some_iff.mp isFirst).1

/-- The first opening of a list of marks stands on the first mark that is one. -/
theorem head?_reduceOption_eq_some_iff
    {marks : List (Option Opening)}
    {opening : Opening} :
    marks.reduceOption.head? = some opening ↔
      ∃ index : Nat, marks[index]? = some (some opening) ∧
        ∀ (earlier : Nat) other, earlier < index → marks[earlier]? ≠ some (some other) := by
  induction marks with
  | nil =>
      simp
  | cons mark rest inductionHypothesis =>
      cases mark with
      | none =>
          rw [List.reduceOption_cons_of_none, inductionHypothesis]
          constructor
          · rintro ⟨index, isMark, first⟩
            refine ⟨index + 1, isMark, fun earlier other before => ?_⟩
            cases earlier with
            | zero =>
                simp
            | succ earlier =>
                exact first earlier other (Nat.lt_of_succ_lt_succ before)
          · rintro ⟨index, isMark, first⟩
            cases index with
            | zero =>
                simp at isMark
            | succ index =>
                exact ⟨index, isMark, fun earlier other before =>
                  first (earlier + 1) other (Nat.succ_lt_succ before)⟩
      | some found =>
          rw [List.reduceOption_cons_of_some, List.head?_cons]
          constructor
          · intro isFound
            exact ⟨0, congrArg some isFound, fun _ _ before => absurd before (Nat.not_lt_zero _)⟩
          · rintro ⟨index, isMark, first⟩
            cases index with
            | zero =>
                exact Option.some.inj isMark
            | succ index =>
                exact absurd rfl (first 0 found index.succ_pos)

theorem stepIn_cons_succ
    {mark : Option Opening}
    {rest : List (Option Opening)}
    {index width : Nat} :
    StepIn (mark :: rest) (index + 1) width ↔ StepIn rest index width := by
  constructor
  · rintro ⟨isFirst, isSecond, below, adjacent, deepens⟩
    obtain ⟨next, rfl⟩ := Nat.exists_eq_add_one_of_ne_zero (Nat.ne_zero_of_lt below)
    exact .intro isFirst isSecond (Nat.lt_of_succ_lt_succ below)
      (fun between opening above under =>
        adjacent (between + 1) opening (Nat.succ_lt_succ above) (Nat.succ_lt_succ under))
      deepens
  · rintro ⟨isFirst, isSecond, below, adjacent, deepens⟩
    refine .intro (by simpa using isFirst) (by simpa using isSecond)
      (Nat.succ_lt_succ below) ?_ deepens
    intro between opening above under
    obtain ⟨between, rfl⟩ := Nat.exists_eq_add_one_of_ne_zero (Nat.ne_zero_of_lt above)
    exact adjacent between opening (Nat.lt_of_succ_lt_succ above) (Nat.lt_of_succ_lt_succ under)

/-- A step from the first mark goes to the first opening below it. -/
theorem stepIn_cons_zero
    {first : Opening}
    {rest : List (Option Opening)}
    {width : Nat} :
    StepIn (some first :: rest) 0 width ↔
      ∃ second, rest.reduceOption.head? = some second ∧ first.Deepens second width := by
  constructor
  · rintro ⟨isFirst, isSecond, below, adjacent, deepens⟩
    obtain rfl := Option.some.inj (Option.some.inj isFirst)
    obtain ⟨next, rfl⟩ := Nat.exists_eq_add_one_of_ne_zero (Nat.ne_zero_of_lt below)
    refine ⟨_, head?_reduceOption_eq_some_iff.mpr ⟨next, isSecond, ?_⟩, deepens⟩
    exact fun earlier other before =>
      adjacent (earlier + 1) other earlier.succ_pos (Nat.succ_lt_succ before)
  · rintro ⟨second, isHead, deepens⟩
    obtain ⟨next, isSecond, earliest⟩ := head?_reduceOption_eq_some_iff.mp isHead
    refine .intro rfl (by simpa using isSecond) next.succ_pos ?_ deepens
    intro between opening above under
    obtain ⟨between, rfl⟩ := Nat.exists_eq_add_one_of_ne_zero above.ne'
    exact earliest between opening (Nat.lt_of_succ_lt_succ under)

/-- The number of places with a property, by whether the first place has it. -/
theorem ncard_setOf_nat
    {has : Nat → Prop}
    [Decidable (has 0)]
    (finite : {index | has (index + 1)}.Finite) :
    {index | has index}.ncard = {index | has (index + 1)}.ncard + if has 0 then 1 else 0 := by
  have moved : (Nat.succ '' {index | has (index + 1)}).ncard = {index | has (index + 1)}.ncard :=
    Set.ncard_image_of_injective _ Nat.succ_injective
  split
  · rename_i first
    have places : {index | has index} = insert 0 (Nat.succ '' {index | has (index + 1)}) := by
      ext index
      cases index <;> simp [first]
    rw [places, Set.ncard_insert_of_notMem (by simp) (finite.image _), moved]
  · rename_i notFirst
    have places : {index | has index} = Nat.succ '' {index | has (index + 1)} := by
      ext index
      cases index <;> simp [notFirst]
    rw [places, moved, Nat.add_zero]

/-- One more statement makes one more step if the next statement is deeper. -/
theorem count_steps_cons
    (first : Opening)
    (later : List Opening)
    (width : Nat)
    [Decidable (∃ second, later.head? = some second ∧ first.Deepens second width)] :
    (steps (first :: later)).count width = (steps later).count width +
      if ∃ second, later.head? = some second ∧ first.Deepens second width then 1 else 0 := by
  cases later with
  | nil =>
      simp [steps]
  | cons second rest =>
      have isHead : (∃ other, (second :: rest).head? = some other ∧ first.Deepens other width) ↔
          first.Deepens second width := by
        simp
      rw [steps]
      by_cases grows : (first.opensBlock &&
          decide (first.leading.length < second.leading.length)) = true
      · obtain ⟨opens, longer⟩ := Bool.and_eq_true_iff.mp grows
        rw [if_pos grows, List.count_cons]
        refine congrArg (_ + ·) (if_congr ?_ rfl rfl)
        rw [isHead, beq_iff_eq]
        exact ⟨fun isWidth => ⟨opens, of_decide_eq_true longer, isWidth⟩, (·.isWidth)⟩
      · have flat : ¬first.Deepens second width := fun deepens =>
          grows (Bool.and_eq_true_iff.mpr ⟨deepens.opens, decide_eq_true deepens.grows⟩)
        rw [if_neg grows, if_neg (mt isHead.mp flat), Nat.add_zero]

theorem ncard_stepIn
    (marks : List (Option Opening))
    (width : Nat) :
    {index | StepIn marks index width}.ncard = (steps marks.reduceOption).count width := by
  classical
  induction marks with
  | nil =>
      have noStep : {index | StepIn [] index width} = ∅ :=
        Set.eq_empty_of_forall_notMem fun _ step => Nat.not_lt_zero _ step.lt_length
      rw [noStep, Set.ncard_empty]
      rfl
  | cons mark rest inductionHypothesis =>
      have finite : {index | StepIn rest index width}.Finite :=
        (Set.finite_lt_nat rest.length).subset fun _ step => step.lt_length
      have below : {index | StepIn (mark :: rest) (index + 1) width} =
          {index | StepIn rest index width} :=
        Set.ext fun _ => stepIn_cons_succ
      rw [ncard_setOf_nat (below ▸ finite), below, inductionHypothesis]
      cases mark with
      | none =>
          have noStep : ¬StepIn (none :: rest) 0 width := by
            rintro ⟨isFirst, -, -, -, -⟩
            cases isFirst
          rw [if_neg noStep, List.reduceOption_cons_of_none, Nat.add_zero]
      | some first =>
          rw [List.reduceOption_cons_of_some, count_steps_cons]
          exact congrArg (_ + ·) (if_congr stepIn_cons_zero rfl rfl)

/-- A step is taken as often as it stands in the list that detection makes. -/
theorem frequency_eq_count
    (texts : List Text)
    (width : Nat) :
    frequency texts width = (steps (openings texts)).count width := by
  have places : {index | StepOn texts index width} = {index | StepIn (marks texts) index width} :=
    Set.ext fun _ => stepOn_iff
  rw [frequency, places, ncard_stepIn, openings_eq]

theorem mem_steps_iff
    {texts : List Text}
    {width : Nat} :
    width ∈ steps (openings texts) ↔ ∃ index, StepOn texts index width := by
  have finite : {index | StepOn texts index width}.Finite :=
    (Set.finite_lt_nat (marks texts).length).subset fun _ step => (stepOn_iff.mp step).lt_length
  rw [← List.count_pos_iff, ← frequency_eq_count, frequency, Set.ncard_pos finite]
  rfl

/-- A text starts with a tab if what it is indented by does. -/
theorem startsWith_indentation
    (text : Text) :
    text.indentation.startsWith ['\t'] = text.startsWith ['\t'] := by
  cases text with
  | nil =>
      rfl
  | cons character rest =>
      by_cases blank : isIndentChar character = true
      · simp [Text.indentation, Text.startsWith, blank, List.isPrefixOf]
      · have notTab : '\t' ≠ character := by
          rintro rfl
          exact blank rfl
        simp [Text.indentation, Text.startsWith, blank, notTab, List.isPrefixOf]

theorem any_startsWith_iff
    (texts : List Text) :
    (openings texts).any (·.leading.startsWith ['\t']) = true ↔ HasTabbedStatement texts := by
  simp only [openings_eq, List.any_eq_true, List.reduceOption_mem_iff]
  constructor
  · rintro ⟨opening, member, tabbed⟩
    obtain ⟨index, isMark⟩ := List.mem_iff_getElem?.mp member
    obtain ⟨text, reading, isStatement, rfl⟩ := getElem?_marks.mp isMark
    exact ⟨index, text, reading, isStatement, startsWith_indentation text ▸ tabbed⟩
  · rintro ⟨index, text, reading, isStatement, tabbed⟩
    have isMark := getElem?_marks.mpr ⟨text, reading, isStatement, rfl⟩
    exact ⟨_, List.mem_of_getElem? isMark, (startsWith_indentation text).trans tabbed⟩

/-! ## The unit that is detected -/

theorem commonWidths_eq
    (texts : List Text) :
    commonWidths texts =
      {step | step ∈ steps (openings texts) ∧
        ∀ other, (steps (openings texts)).count other ≤ (steps (openings texts)).count step} := by
  simp only [commonWidths, frequency_eq_count, mem_steps_iff]

/-- Detection takes the step that stays when every step is visited with its count. -/
theorem detect_eq_detectVisiting
    (texts : List Text) :
    detect texts =
      detectVisiting
        ((steps (openings texts)).map (StepCount.countedIn (steps (openings texts)))) texts := by
  unfold detect detectVisiting
  dsimp only
  split
  · rfl
  · by_cases occupied : steps (openings texts) = []
    · rw [occupied]
      rfl
    · have positive := pos_of_mem_steps (StepCount.isLeast_best occupied).1.1
      rw [commonStep?_eq occupied, if_neg positive.ne']

/-- A table of the counts lists the steps that detection finds, each with its count. -/
theorem tabulates_iff
    {counts : List StepCount}
    {texts : List Text} :
    Tabulates counts texts ↔
      ∀ entry, entry ∈ counts ↔
        entry ∈ (steps (openings texts)).map (StepCount.countedIn (steps (openings texts))) := by
  simp only [Tabulates, frequency_eq_count, StepCount.mem_map_countedIn]

theorem exists_tabulates
    (texts : List Text) :
    ∃ counts, Tabulates counts texts :=
  ⟨_, tabulates_iff.mpr fun _ => Iff.rfl⟩

/-- Every table of the counts leads to the unit that is detected. -/
theorem Tabulates.detectVisiting_eq
    {counts : List StepCount}
    {texts : List Text}
    (tabulates : Tabulates counts texts) :
    detectVisiting counts texts = detect texts := by
  rw [detect_eq_detectVisiting, detectVisiting, detectVisiting,
    StepCount.best_eq_of_mem_iff (tabulates_iff.mp tabulates)]

/-- The statements of a file ask for one unit only. -/
theorem AskedFor.unique
    {texts : List Text}
    {first second : IndentUnit}
    (isFirst : AskedFor texts first)
    (isSecond : AskedFor texts second) :
    first = second := by
  cases isFirst with
  | tabbed tabbed =>
      cases isSecond with
      | tabbed | flat =>
          rfl
      | stepped untabbed =>
          exact absurd tabbed untabbed
  | flat flat =>
      cases isSecond with
      | tabbed | flat =>
          rfl
      | stepped _ least =>
          obtain ⟨index, step⟩ := least.1.1
          exact absurd step (flat _ _)
  | stepped untabbed least =>
      cases isSecond with
      | tabbed tabbed =>
          exact absurd tabbed untabbed
      | flat flat =>
          obtain ⟨index, step⟩ := least.1.1
          exact absurd step (flat _ _)
      | stepped _ otherLeast =>
          rw [least.unique otherLeast]

/-- The unit that is detected is asked for. -/
theorem askedFor_detect
    (texts : List Text) :
    AskedFor texts (detect texts) := by
  unfold detect
  dsimp only
  split
  · rename_i tabbed
    exact .tabbed ((any_startsWith_iff texts).mp tabbed)
  · rename_i untabbed
    by_cases occupied : steps (openings texts) = []
    · rw [occupied]
      refine .flat fun index width step => ?_
      have member : width ∈ steps (openings texts) :=
        mem_steps_iff.mpr ⟨index, step⟩
      rw [occupied] at member
      cases member
    · rw [commonStep?_eq occupied]
      refine .stepped (mt (any_startsWith_iff texts).mpr untabbed) ?_
      rw [commonWidths_eq]
      exact StepCount.isLeast_best occupied

/-- The width of a unit of spaces that is asked for is positive. -/
theorem AskedFor.pos_of_spaces
    {texts : List Text}
    {width : Int}
    (asked : AskedFor texts (spaces width)) :
    1 ≤ width := by
  generalize isSpaces : spaces width = unit at asked
  cases asked with
  | tabbed | flat =>
      cases isSpaces
  | stepped _ least =>
      cases isSpaces
      obtain ⟨index, step⟩ := least.1.1
      have positive := pos_of_mem_steps (mem_steps_iff.mpr ⟨index, step⟩)
      omega

/--
The unit of a file does not depend on the order in which the counts of its steps
are visited.  It is the one that the statements of the file ask for: tabs if one
of them starts with a tab or if no step is taken, and otherwise as many spaces
as the smallest of the most common steps is wide, at least one.
-/
theorem detection_is_well_defined
    (texts : List Text) :
    (∃ counts, Tabulates counts texts) ∧
      (∀ counts, Tabulates counts texts → detectVisiting counts texts = detect texts) ∧
      (∀ unit, detect texts = unit ↔ AskedFor texts unit) ∧
      ∀ width, detect texts = spaces width → 1 ≤ width := by
  refine ⟨exists_tabulates texts, fun _ tabulates => tabulates.detectVisiting_eq,
    fun unit => ⟨?_, (askedFor_detect texts).unique⟩, fun width isSpaces => ?_⟩
  · rintro rfl
    exact askedFor_detect texts
  · exact (isSpaces ▸ askedFor_detect texts).pos_of_spaces

/-- Functions with two steps of two and two of four, besides a bracket and a string across lines. -/
def unevenFunctions : List Text :=
  ["func f(a,".toList,
    "        b):".toList,
    "     pass".toList,
    "func g(): # two".toList,
    "".toList,
    "  if a:".toList,
    "      var s = \"\"\"x:".toList,
    "                y\"\"\"".toList,
    "func h():".toList,
    "    if b:".toList,
    "      pass".toList]

theorem equally_common_steps_are_visited_in_any_order :
    Tabulates [⟨4, 2⟩, ⟨2, 2⟩] unevenFunctions ∧
      detectVisiting [⟨4, 2⟩, ⟨2, 2⟩] unevenFunctions = spaces 2 ∧
      AskedFor unevenFunctions (spaces 2) := by
  have isSteps : steps (openings unevenFunctions) = [2, 4, 4, 2] := by
    decide +kernel
  have isDetected : detect unevenFunctions = spaces 2 := by
    decide +kernel
  have tabulates : Tabulates [⟨4, 2⟩, ⟨2, 2⟩] unevenFunctions := by
    refine tabulates_iff.mpr fun entry => ?_
    have isListed : [2, 4, 4, 2].map (StepCount.countedIn [2, 4, 4, 2]) =
        [⟨2, 2⟩, ⟨4, 2⟩, ⟨4, 2⟩, ⟨2, 2⟩] := by
      decide
    rw [isSteps, isListed]
    simp only [List.mem_cons, List.not_mem_nil, or_false]
    grind
  obtain ⟨-, sameUnit, askedFor, -⟩ := detection_is_well_defined unevenFunctions
  exact ⟨tabulates, (sameUnit _ tabulates).trans isDetected, (askedFor _).mp isDetected⟩

end IndentUnit

end ScriptUplift
