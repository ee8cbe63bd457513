import Mathlib.Tactic.Common
import ScriptUplift.Proofs.BlocksInPlace
import ScriptUplift.Proofs.RepeatedRepair

namespace ScriptUplift

/-!
# Lines that stand where repair puts them

A repaired file is read as it is known, and another repair puts every line where
it stands.  Both go line by line and hand on what is left open, the statement
above and the open blocks.  At every border between two lines of such a file the
open blocks are in place, wait for their body exactly below a header, and hold
nothing but inner classes outside of a method or an inner class.  Only plain
statements can therefore be stranded at the margin, with no block around them.
-/

namespace Indent

/-- What reading and repair hand from one line to the next when no line is moved. -/
structure Border where
  carry : Carry
  context : Context
  frames : List Frame

namespace Border

/-- The border above the first line of a file. -/
def top
    (unit : IndentUnit) :
    Border :=
  ⟨.neutral, { unit := unit }, []⟩

/-- The border below one more line. -/
def below
    (border : Border)
    (line : Line) :
    Border where
  carry := border.carry.after (Scan.line border.carry.openString line.text)
  context := border.context.below line
  frames := if line.isStatement then inside border.frames line else border.frames

/-- The border below lines. -/
def belowAll
    (border : Border)
    (lines : List Line) :
    Border :=
  lines.foldl below border

@[simp] theorem unit_below
    (border : Border)
    (line : Line) :
    (border.below line).context.unit = border.context.unit :=
  border.context.unit_below line

theorem frames_below_of_isStatement
    (border : Border)
    {line : Line}
    (statement : line.isStatement = true) :
    (border.below line).frames = inside border.frames line :=
  if_pos statement

/-- A line that starts no statement leaves the statement above and the open blocks as they are. -/
theorem below_of_not_isStatement
    (border : Border)
    {line : Line}
    (noStatement : line.isStatement = false) :
    (border.below line).context = border.context ∧
      (border.below line).frames = border.frames := by
  unfold below Context.below
  simp [noStatement]

end Border

/-! ## Blocks outside of methods and inner classes -/

/-- Outside of a method or an inner class only inner classes are open. -/
def Layered : List Frame → Prop
  | [] =>
      True
  | frame :: outer =>
      (frame.kind ≠ .control → ∀ other ∈ outer, other.kind = .innerClass) ∧ Layered outer

namespace Layered

theorem of_suffix
    {frames outer : List Frame}
    (layered : Layered frames)
    (isOuter : outer <:+ frames) :
    Layered outer := by
  induction frames with
  | nil =>
      rw [List.suffix_nil.mp isOuter]
      trivial
  | cons frame rest inductionHypothesis =>
      rcases List.suffix_cons_iff.mp isOuter with rfl | inRest
      · exact layered
      · exact inductionHypothesis layered.2 inRest

theorem of_classes
    {frames : List Frame}
    (classes : ∀ frame ∈ frames, frame.kind = .innerClass) :
    Layered frames := by
  induction frames with
  | nil =>
      trivial
  | cons frame outer inductionHypothesis =>
      have others := (List.forall_mem_cons.mp classes).2
      exact ⟨fun _ => others, inductionHypothesis others⟩

theorem beginInnermost
    {frames : List Frame}
    (layered : Layered frames)
    (found : Nat) :
    Layered (beginInnermost found frames) := by
  cases frames with
  | nil =>
      exact layered
  | cons frame outer =>
      exact layered

/-- What stays open around a declaration is the inner classes it stands in. -/
theorem classes_dropToClass
    {frames : List Frame}
    (layered : Layered frames)
    (found : Nat) :
    ∀ frame ∈ dropToClass found frames, frame.kind = .innerClass := by
  fun_induction dropToClass found frames with
  | case1 =>
      simp
  | case2 frame outer stays =>
      refine List.forall_mem_cons.mpr ⟨stays.1, layered.1 ?_⟩
      rw [stays.1]
      exact FrameKind.noConfusion
  | case3 frame outer closes inductionHypothesis =>
      exact inductionHypothesis layered.2

end Layered

theorem classes_beginInnermost
    {frames : List Frame}
    (classes : ∀ frame ∈ frames, frame.kind = .innerClass)
    (found : Nat) :
    ∀ frame ∈ beginInnermost found frames, frame.kind = .innerClass := by
  cases frames with
  | nil =>
      exact classes
  | cons frame outer =>
      obtain ⟨own, others⟩ := List.forall_mem_cons.mp classes
      exact List.forall_mem_cons.mpr ⟨own, others⟩

/-- Around what belongs at class scope only inner classes are open. -/
theorem Layered.classes_around
    {frames : List Frame}
    (layered : Layered frames)
    {line : Line}
    (snaps : snapsToClass line = true) :
    ∀ frame ∈ around frames line, frame.kind = .innerClass := by
  unfold around
  rw [if_pos snaps]
  exact classes_beginInnermost (layered.classes_dropToClass line.depth) line.depth

theorem Layered.around
    {frames : List Frame}
    (layered : Layered frames)
    (line : Line) :
    Layered (around frames line) := by
  cases snaps : snapsToClass line with
  | true =>
      exact .of_classes (layered.classes_around snaps)
  | false =>
      rw [Indent.around, snaps, if_neg Bool.false_ne_true]
      cases waiting : awaitsBody frames with
      | true =>
          rw [enterStatement_of_awaitsBody waiting]
          exact layered.beginInnermost line.depth
      | false =>
          rw [enterStatement_of_not_awaitsBody waiting]
          exact layered.of_suffix (closeDeeper_suffix line.depth frames)

/-- Only what belongs at class scope opens a method or an inner class. -/
theorem snapsToClass_of_frameKindOf
    {line : Line}
    (opensClassScope : frameKindOf line ≠ .control) :
    snapsToClass line = true := by
  unfold frameKindOf at opensClassScope
  unfold snapsToClass
  split at opensClassScope
  · rename_i method
    rw [method, Bool.or_true, Bool.true_or]
  · split at opensClassScope
    · rename_i header
      rw [header, Bool.or_true]
    · exact absurd rfl opensClassScope

theorem Layered.inside
    {frames : List Frame}
    (layered : Layered frames)
    (line : Line) :
    Layered (inside frames line) := by
  unfold Indent.inside
  split
  · exact ⟨fun opensClassScope =>
      layered.classes_around (snapsToClass_of_frameKindOf opensClassScope), layered.around line⟩
  · exact layered.around line

/-! ## Scopes -/

/-- Nothing is open around a line at file scope. -/
theorem scopeOf_eq_file_iff
    (frames : List Frame) :
    scopeOf frames = .file ↔ frames = [] := by
  cases frames with
  | nil =>
      simp [scopeOf]
  | cons frame outer =>
      cases kind : frame.kind <;> simp [scopeOf, kind] <;> split_ifs <;> simp

/-- Inside of nothing but inner classes there is no block. -/
theorem scopeOf_ne_block_of_classes
    {frames : List Frame}
    (classes : ∀ frame ∈ frames, frame.kind = .innerClass) :
    scopeOf frames ≠ .block := by
  have noControl : frames.any (·.kind == .control) = false := by
    rw [List.any_eq_false]
    intro frame member
    rw [classes frame member]
    decide
  unfold scopeOf
  rw [noControl, if_neg Bool.false_ne_true]
  split_ifs <;> decide

/-! ## Borders of a file in repair -/

/-- The open blocks at a border are in place and begun where the statement above says. -/
structure Border.Sound
    (border : Border) :
    Prop where
  inPlace : InPlace border.frames
  begun : OuterBegun border.frames
  layered : Layered border.frames
  awaits : awaitsBody border.frames = border.context.previousOpens

theorem Border.sound_top
    (unit : IndentUnit) :
    (top unit).Sound where
  inPlace := trivial
  begun := fun _ member => absurd member List.not_mem_nil
  layered := trivial
  awaits := rfl

/-- A statement stands as deep as there are blocks around it, and its scope is theirs. -/
structure Stands
    (unit : IndentUnit)
    (frames : List Frame)
    (line : Line) :
    Prop where
  scope : line.scope = scopeOf (around frames line)
  depth : line.depth = (around frames line).length
  text : unit.reindent line.text line.depth = line.text

theorem InPlace.nested
    {frames : List Frame}
    (inPlace : InPlace frames) :
    Nested frames := by
  induction frames with
  | nil =>
      trivial
  | cons frame outer inductionHypothesis =>
      exact ⟨inPlace.2.1, inductionHypothesis inPlace.2.2.2⟩

/-- Around a statement that stands the blocks are in place. -/
theorem InPlace.around
    {frames : List Frame}
    (inPlace : InPlace frames)
    {line : Line}
    (depth : line.depth = (around frames line).length) :
    InPlace (around frames line) := by
  unfold Indent.around at depth ⊢
  split
  · rename_i snaps
    rw [if_pos snaps, enterDeclaration, length_beginInnermost] at depth
    exact (inPlace.of_suffix (dropToClass_suffix line.depth frames)).beginInnermost depth.ge
  · rename_i plain
    rw [if_neg plain] at depth
    cases waiting : awaitsBody frames with
    | true =>
        rw [enterStatement_of_awaitsBody waiting, length_beginInnermost] at depth
        rw [enterStatement_of_awaitsBody waiting]
        exact inPlace.beginInnermost depth.ge
    | false =>
        rw [enterStatement_of_not_awaitsBody waiting]
        exact inPlace.of_suffix (closeDeeper_suffix line.depth frames)

/-- Below a statement that stands the border is sound again. -/
theorem Border.Sound.below
    {border : Border}
    (sound : border.Sound)
    {line : Line}
    (depth : line.isStatement = true → line.depth = (around border.frames line).length) :
    (border.below line).Sound := by
  cases statement : line.isStatement with
  | false =>
      obtain ⟨sameContext, sameFrames⟩ := border.below_of_not_isStatement statement
      constructor
      · rw [sameFrames]
        exact sound.inPlace
      · rw [sameFrames]
        exact sound.begun
      · rw [sameFrames]
        exact sound.layered
      · rw [sameFrames, sameContext]
        exact sound.awaits
  | true =>
      have frames := border.frames_below_of_isStatement statement
      have opens : (border.below line).context.previousOpens = line.opens := by
        simp [Border.below, Context.below, statement]
      constructor
      · rw [frames]
        exact (sound.inPlace.around (depth statement)).inside (depth statement)
      · rw [frames]
        exact sound.begun.inside line
      · rw [frames]
        exact sound.layered.inside line
      · rw [frames, opens]
        exact sound.begun.awaitsBody_inside line

/-- Lines below a border that are known as they are read and stand where repair puts them. -/
structure Standing
    (border : Border)
    (lines : List Line) :
    Prop where
  known : readLines border.carry border.context lines = lines
  placed : repairLines border.context.unit border.frames 0 lines = lines

namespace Standing

variable
  {border : Border}
  {line : Line}
  {rest : List Line}

/-- The first line is known as it is read. -/
theorem own
    (standing : Standing border (line :: rest)) :
    line.readIn border.carry border.context (leadsBlock border.carry (line :: rest)) = line := by
  have known := standing.known
  rw [readLines_cons, List.cons.injEq] at known
  exact known.1

/-- The first line, if it starts a statement, stands in the blocks around it. -/
theorem stands
    (standing : Standing border (line :: rest))
    (sound : border.Sound)
    (statement : line.isStatement = true) :
    Stands border.context.unit border.frames line := by
  have own := standing.own
  have placedRest := standing.placed
  rw [repairLines_statement _ _ _ statement, List.cons.injEq] at placedRest
  obtain ⟨placedOwn, _⟩ := placedRest
  have nested := sound.inPlace.nested
  have text : border.context.unit.reindent line.text
      (bodyDepthOf (Indent.around border.frames line)) = line.text :=
    congrArg Line.text placedOwn
  have depth : line.depth = (Indent.around border.frames line).length := by
    have found := depth_placed border.context.unit nested
      (Line.all_isIndentChar_of_isStatement own statement)
    rw [placedOwn] at found
    rw [← found, ← own]
    rfl
  refine ⟨(congrArg Line.scope placedOwn).symm, depth, ?_⟩
  rwa [(nested.around line).bodyDepthOf_eq, ← depth] at text

/-- Below the first line the others stand, and the border is sound. -/
theorem below
    (standing : Standing border (line :: rest))
    (sound : border.Sound) :
    Standing (border.below line) rest ∧ (border.below line).Sound := by
  refine ⟨⟨?_, ?_⟩, sound.below fun statement => (standing.stands sound statement).depth⟩
  · have known := standing.known
    rw [readLines_cons, List.cons.injEq, standing.own] at known
    exact known.2
  · rw [border.unit_below]
    have placed := standing.placed
    cases statement : line.isStatement with
    | false =>
        rw [repairLines_of_not_isStatement _ _ _ statement, List.cons.injEq] at placed
        rw [(border.below_of_not_isStatement statement).2]
        exact placed.2
    | true =>
        have stands := standing.stands sound statement
        rw [repairLines_statement _ _ _ statement, List.cons.injEq,
          (sound.inPlace.nested.around line).bodyDepthOf_eq, ← stands.depth, Int.sub_self] at placed
        rw [border.frames_below_of_isStatement statement]
        exact placed.2

/-- What stands below lines that stand does so below a sound border. -/
theorem belowAll
    {lines : List Line}
    (standing : Standing border (lines ++ rest))
    (sound : border.Sound) :
    Standing (border.belowAll lines) rest ∧ (border.belowAll lines).Sound := by
  induction lines generalizing border with
  | nil =>
      exact ⟨standing, sound⟩
  | cons line others inductionHypothesis =>
      obtain ⟨standingBelow, soundBelow⟩ := Standing.below standing sound
      exact inductionHypothesis standingBelow soundBelow

/-- Every line of lines that stand has a sound border above it, below which it stands. -/
theorem exists_border
    {lines : List Line}
    (standing : Standing border lines)
    (sound : border.Sound)
    (member : line ∈ lines) :
    ∃ (above : Border) (below : List Line), Standing above (line :: below) ∧ above.Sound := by
  obtain ⟨first, second, rfl⟩ := List.mem_iff_append.mp member
  exact ⟨_, _, standing.belowAll sound⟩

end Standing

end Indent

/-! ## Stranded statements -/

/-- What is stranded belongs at class scope in no way. -/
theorem Line.snapsToClass_of_leadsIn
    {line : Line}
    (leads : line.leadsIn = true) :
    Indent.snapsToClass line = false := by
  simp only [leadsIn, Bool.and_eq_true, Bool.not_eq_true'] at leads
  obtain ⟨⟨_, plain⟩, noHeader⟩ := leads
  unfold Indent.snapsToClass
  rw [noHeader, Bool.or_false, Bool.or_eq_false_iff]
  generalize line.category = category at plain
  cases category <;> first | exact ⟨rfl, rfl⟩ | cases plain

/-- A stranded statement stands at file scope. -/
theorem Line.scope_of_leadsIn
    {line : Line}
    (leads : line.leadsIn = true) :
    line.scope = .file := by
  simp only [leadsIn, Bool.and_eq_true, beq_iff_eq] at leads
  exact leads.1.1.2

namespace Indent

/-- Where a plain statement stands outside of all blocks, none is opened right above it. -/
theorem awaitsBody_of_around_eq_nil
    {frames : List Frame}
    {line : Line}
    (plain : snapsToClass line = false)
    (noneAround : around frames line = []) :
    awaitsBody frames = false := by
  rw [Bool.eq_false_iff]
  intro waiting
  have length := length_around_of_awaitsBody waiting plain
  rw [noneAround, List.length_nil, eq_comm, List.length_eq_zero_iff] at length
  rw [length] at waiting
  cases waiting

namespace Standing

variable
  {border : Border}
  {line : Line}
  {rest : List Line}

/-- No block is open around a stranded statement, and none is opened right above it. -/
theorem margin_of_leadsIn
    (standing : Standing border (line :: rest))
    (sound : border.Sound)
    (leads : line.leadsIn = true) :
    around border.frames line = [] ∧ line.depth = 0 ∧ border.context.previousOpens = false := by
  have stands := standing.stands sound (Line.isStatement_of_leadsIn leads)
  have noneAround : around border.frames line = [] := by
    rw [← scopeOf_eq_file_iff, ← stands.scope, Line.scope_of_leadsIn leads]
  refine ⟨noneAround, ?_, ?_⟩
  · rw [stands.depth, noneAround, List.length_nil]
  · rw [← sound.awaits]
    exact awaitsBody_of_around_eq_nil (Line.snapsToClass_of_leadsIn leads) noneAround

/-- No statement goes on where another one starts. -/
theorem carry_of_isStatement
    (standing : Standing border (line :: rest))
    (statement : line.isStatement = true) :
    border.carry = .neutral :=
  (Carry.isNeutral_iff _).mp (Line.isNeutral_of_isStatement standing.own statement)

/-- A line that extends a run is no declaration and no header. -/
theorem snapsToClass_of_joinsRun
    (standing : Standing border (line :: rest))
    (sound : border.Sound)
    (statement : line.isStatement = true)
    (joins : line.joinsRun = true) :
    snapsToClass line = false := by
  have starts := Line.continues_of_isStatement statement
  simp only [Line.joinsRun, starts, Bool.false_or, Bool.or_eq_true, beq_iff_eq] at joins
  rcases joins with inBlock | leads
  · rw [Bool.eq_false_iff]
    intro snaps
    rw [(standing.stands sound statement).scope] at inBlock
    exact scopeOf_ne_block_of_classes (sound.layered.classes_around snaps) inBlock
  · exact Line.snapsToClass_of_leadsIn leads

end Standing

end Indent

namespace Source

/-- A repaired file is where repair puts it. -/
theorem Consistent.placedLines_indentStage
    {source : Source}
    (consistent : source.Consistent) :
    source.indentStage.placedLines = source.indentStage.lines := by
  unfold placedLines
  rw [unit_indentStage consistent, lines_indentStage consistent]
  have nested : Indent.Nested [] := trivial
  have contexts (context : Context) : Indent.ReadAgain [] context context :=
    ⟨⟨rfl, rfl, rfl⟩, id, fun _ _ => rfl⟩
  exact Indent.repairLines_again nested .nil (contexts _) 0 consistent.fresh

/-- The lines of a repaired file stand. -/
theorem Consistent.standing_indentStage
    {source : Source}
    (consistent : source.Consistent) :
    Indent.Standing (.top source.indentStage.unit) source.indentStage.lines where
  known := consistent.indentStage.fresh
  placed := consistent.placedLines_indentStage

end Source

end ScriptUplift
