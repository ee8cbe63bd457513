import Mathlib.Tactic.Common
import ScriptUplift.Proofs.OtherPlaces
import ScriptUplift.Proofs.ResolvedRuns

namespace ScriptUplift

/-!
# Wrapped runs stay where they are

Read again and repaired again, a wrapper and its body are found in place.  The
blocks that are open in the body are those of the run, one level deeper, inside
of the block of the wrapper.  Every statement of the run keeps its category: at
the margin of the run it is plain, which it is everywhere, and further right it
is a local before and after.
-/

namespace Indent

/-! ## Lines that stay in place -/

/-- Read again at a border, a statement stays where it is and is not stranded. -/
structure Remains
    (border : Border)
    (line : Line) :
    Prop where
  depth : line.depth = (around border.frames line).length
  text : border.context.unit.reindent line.text line.depth = line.text
  housed : (placed border.context.unit border.frames line).leadsIn = false

/-- Read and repaired from a border on, lines keep their texts, and none leads into a run. -/
structure Settles
    (border : Border)
    (lines : List Line) :
    Prop where
  texts :
    (repairLines border.context.unit border.frames 0
      (readLines border.carry border.context lines)).map (·.text) = lines.map (·.text)
  housed :
    ∀ line ∈ repairLines border.context.unit border.frames 0
      (readLines border.carry border.context lines), line.leadsIn = false

namespace Settles

theorem nil
    (border : Border) :
    Settles border [] :=
  ⟨rfl, fun _ member => absurd member List.not_mem_nil⟩

/-- Lines settle one by one. -/
theorem cons
    {border : Border}
    (sound : border.Sound)
    {line again : Line}
    {rest : List Line}
    (isRead :
      line.readIn border.carry border.context (leadsBlock border.carry (line :: rest)) = again)
    (remains : again.isStatement = true → Remains border again)
    (below : Settles (border.below again) rest) :
    Settles border (line :: rest) := by
  obtain ⟨restTexts, restHoused⟩ := below
  have sameText : again.text = line.text := by
    rw [← isRead]
    rfl
  have read : readLines border.carry border.context (line :: rest) =
      again :: readLines (border.below again).carry (border.below again).context rest := by
    rw [readLines_cons, isRead, Border.below, sameText]
  rw [border.unit_below] at restTexts restHoused
  constructor <;> rw [read]
  · cases statement : again.isStatement with
    | false =>
        rw [repairLines_of_not_isStatement _ _ _ statement]
        rw [(border.below_of_not_isStatement statement).2] at restTexts
        simp [restTexts, sameText]
    | true =>
        obtain ⟨depth, text, _⟩ := remains statement
        have target := (sound.inPlace.nested.around again).bodyDepthOf_eq
        rw [repairLines_statement _ _ _ statement, target, ← depth, Int.sub_self, List.map_cons,
          placed, target, ← depth, text, sameText]
        rw [border.frames_below_of_isStatement statement] at restTexts
        rw [restTexts]
        rfl
  · cases statement : again.isStatement with
    | false =>
        rw [repairLines_of_not_isStatement _ _ _ statement]
        rw [(border.below_of_not_isStatement statement).2] at restHoused
        refine List.forall_mem_cons.mpr ⟨?_, restHoused⟩
        rw [Bool.eq_false_iff]
        intro leads
        have impossible := Line.isStatement_of_leadsIn leads
        exact absurd (statement.symm.trans impossible) Bool.false_ne_true
    | true =>
        obtain ⟨depth, _, housed⟩ := remains statement
        have target := (sound.inPlace.nested.around again).bodyDepthOf_eq
        rw [repairLines_statement _ _ _ statement, target, ← depth, Int.sub_self]
        rw [border.frames_below_of_isStatement statement] at restHoused
        exact List.forall_mem_cons.mpr ⟨housed, restHoused⟩

/-- Lines without code, where nothing is open, let the lines below them settle. -/
theorem append_of_hasNoCode
    {border : Border}
    (sound : border.Sound)
    (neutral : border.carry = .neutral)
    {hidden others : List Line}
    (noCode : ∀ line ∈ hidden, line.text.hasNoCode = true)
    (settles : Settles border others) :
    Settles border (hidden ++ others) := by
  induction hidden with
  | nil =>
      exact settles
  | cons line rest inductionHypothesis =>
      obtain ⟨own, restNoCode⟩ := List.forall_mem_cons.mp noCode
      rw [List.cons_append]
      have noStatement :
          (line.readIn border.carry border.context
            (leadsBlock border.carry (line :: (rest ++ others)))).isStatement = false := by
        rw [neutral]
        exact Line.isStatement_of_hasNoCode own _ _
      have same : border.below (line.readIn border.carry border.context
          (leadsBlock border.carry (line :: (rest ++ others)))) = border := by
        have closed : border.carry.after (Scan.line border.carry.openString line.text) =
            border.carry := by
          rw [neutral]
          exact (Scan.Empty.of_hasNoCode own).after_neutral
        obtain ⟨sameContext, sameFrames⟩ := border.below_of_not_isStatement noStatement
        generalize read : line.readIn _ _ _ = again at sameContext sameFrames ⊢
        have sameText : again.text = line.text := by
          rw [← read]
          rfl
        have sameCarry : (border.below again).carry = border.carry := by
          rw [Border.below, sameText]
          exact closed
        generalize border.below again = below at sameContext sameFrames sameCarry ⊢
        cases below
        cases border
        simp_all
      refine .cons sound rfl (fun statement => ?_) ?_
      · exact absurd (noStatement.symm.trans statement) Bool.false_ne_true
      · rw [same]
        exact inductionHypothesis restNoCode

end Settles

/-! ## The blocks in a wrapper -/

/-- A block, one level deeper. -/
def Frame.deeper
    (frame : Frame) :
    Frame :=
  { frame with
    depth := frame.depth + 1
    bodyDepth := frame.bodyDepth.map (· + 1)
    headerDepth := frame.headerDepth + 1 }

/-- The block of a wrapper at the margin, its body begun. -/
def wrapperFrame : Frame :=
  { kind := .method, depth := 1, bodyDepth := some 1, headerDepth := 0 }

/-- Blocks, one level deeper, in the block of a wrapper. -/
def wrappedFrames
    (frames : List Frame) :
    List Frame :=
  frames.map Frame.deeper ++ [wrapperFrame]

@[simp] theorem length_wrappedFrames
    (frames : List Frame) :
    (wrappedFrames frames).length = frames.length + 1 := by
  simp [wrappedFrames]

/-- Everything in a wrapper is in a method. -/
theorem scopeOf_wrappedFrames
    (frames : List Frame) :
    scopeOf (wrappedFrames frames) = .method := by
  have isMethod : (wrappedFrames frames).any (·.kind == .method) = true :=
    List.any_eq_true.mpr ⟨wrapperFrame, by simp [wrappedFrames], rfl⟩
  rw [scopeOf, if_pos isMethod]

theorem closeDeeper_wrappedFrames
    (found : Nat)
    (frames : List Frame) :
    closeDeeper (found + 1) (wrappedFrames frames) = wrappedFrames (closeDeeper found frames) := by
  unfold wrappedFrames
  induction frames with
  | nil =>
      simp [closeDeeper, wrapperFrame]
  | cons frame outer inductionHypothesis =>
      have same : frame.deeper.bodyDepth.any (found + 1 < ·) = frame.bodyDepth.any (found < ·) := by
        unfold Frame.deeper
        cases frame.bodyDepth <;> simp
      rw [List.map_cons, List.cons_append, closeDeeper, closeDeeper, same]
      split
      · exact inductionHypothesis
      · rfl

theorem beginInnermost_wrappedFrames
    (found : Nat)
    {frames : List Frame}
    (someOpen : frames ≠ []) :
    beginInnermost (found + 1) (wrappedFrames frames) =
      wrappedFrames (beginInnermost found frames) := by
  cases frames with
  | nil =>
      exact absurd rfl someOpen
  | cons frame outer =>
      have same : frame.deeper.begin (found + 1) = (frame.begin found).deeper := by
        unfold Frame.deeper Frame.begin
        cases frame.bodyDepth <;> simp
      simp [wrappedFrames, beginInnermost, same]

/-- A statement one level deeper lands in the same blocks, one level deeper. -/
theorem enterStatement_wrappedFrames
    (frames : List Frame)
    (found : Nat) :
    enterStatement (wrappedFrames frames) (found + 1) =
      wrappedFrames (enterStatement frames found) := by
  have sameWaiting : awaitsBody (wrappedFrames frames) = awaitsBody frames := by
    cases frames with
    | nil =>
        rfl
    | cons frame outer =>
        simp [awaitsBody, wrappedFrames, Frame.deeper]
  cases waiting : awaitsBody frames with
  | true =>
      have someOpen : frames ≠ [] := by
        rintro rfl
        cases waiting
      rw [enterStatement_of_awaitsBody waiting,
        enterStatement_of_awaitsBody (sameWaiting.trans waiting),
        beginInnermost_wrappedFrames found someOpen]
  | false =>
      rw [enterStatement_of_not_awaitsBody waiting,
        enterStatement_of_not_awaitsBody (sameWaiting.trans waiting),
        closeDeeper_wrappedFrames]

/-! ## Statements of a run in a wrapper -/

theorem snapsToClass_congr
    {line again : Line}
    (category : again.category = line.category)
    (code : again.code = line.code) :
    snapsToClass again = snapsToClass line := by
  unfold snapsToClass
  rw [category, code]

theorem frameKindOf_congr
    {line again : Line}
    (category : again.category = line.category)
    (code : again.code = line.code) :
    frameKindOf again = frameKindOf line := by
  unfold frameKindOf
  rw [category, code]

end Indent

/-- A statement that is classified alike in another place is read as the same, under its own text. -/
theorem Line.readIn_eq_of_classify
    {line out : Line}
    {carry : Carry}
    {first second : Context}
    {opens : Bool}
    (known : line.readIn carry first opens = line)
    (statement : line.isStatement = true)
    (same : classify second out.text = classify first line.text) :
    out.readIn carry second opens =
      { line with
        number := out.number
        source := out.source
        text := out.text
        scope := out.scope
        depth := second.unit.depth out.text } := by
  have neutral := isNeutral_of_isStatement known statement
  conv_rhs => rw [← known]
  simp [readIn, neutral, same]

namespace Indent

/-- A border of a run, and the border at the same place in its wrapper. -/
structure Wrapped
    (border again : Border) :
    Prop where
  carry : again.carry = border.carry
  context : again.context = border.context
  frames : again.frames = wrappedFrames border.frames
  sound : again.Sound
  plain : border.context.previous.isClassLevel = false

/-- What a statement of a run is read as in the wrapper. -/
structure Deepened
    (unit : IndentUnit)
    (line again : Line) :
    Prop where
  depth : again.depth = line.depth + 1
  text : again.text = unit.reindent line.text (line.depth + 1)
  category : again.category = line.category
  code : again.code = line.code
  opens : again.opens = line.opens
  annotationOnly : again.annotationOnly = line.annotationOnly
  continues : again.continues = line.continues

/-- The text of a wrapped statement that stood in its place stands one level deeper. -/
theorem wrappedText_eq_reindent
    {border : Border}
    {line : Line}
    {rest : List Line}
    (standing : Standing border (line :: rest))
    (sound : border.Sound)
    (statement : line.isStatement = true) :
    Orphan.wrappedText border.context.unit line =
      border.context.unit.reindent line.text (line.depth + 1) := by
  have own := standing.own
  have stands := standing.stands sound statement
  have noString : line.inString = false := by
    rw [← own, standing.carry_of_isStatement statement]
    rfl
  have visible : line.text.isBlank = false := by
    have classified := Line.classify_of_isStatement own statement
    rw [Bool.eq_false_iff]
    intro blank
    unfold classify at classified
    rw [if_pos blank, Prod.mk.injEq] at classified
    simp [Line.isStatement, ← classified.1, Category.isTrivia] at statement
  rw [Orphan.wrappedText, visible, noString, Bool.or_false, if_neg Bool.false_ne_true,
    Nat.add_comm, IndentUnit.reindent, ← IndentUnit.lead_append_lead, List.append_assoc]
  exact congrArg _ stands.text.symm

/-- One level deeper, a statement that stands is found one level deeper. -/
theorem deepened_of_classify
    {border : Border}
    {line out : Line}
    {rest : List Line}
    (standing : Standing border (line :: rest))
    (statement : line.isStatement = true)
    (moved : out.text = border.context.unit.reindent line.text (line.depth + 1))
    {second : Context}
    (sameUnit : second.unit = border.context.unit)
    (same : classify second out.text = classify border.context line.text) :
    Deepened border.context.unit line
      (out.readIn border.carry second (leadsBlock border.carry (line :: rest))) := by
  have own := standing.own
  have code := Line.all_isIndentChar_of_isStatement own statement
  have starts := Line.continues_of_isStatement statement
  rw [Line.readIn_eq_of_classify own statement same]
  refine ⟨?_, moved, rfl, ?_, rfl, rfl, rfl⟩
  · dsimp only
    rw [moved, sameUnit, border.context.unit.depth_reindent code]
  · have sameCode : line.text.SameCode out.text := by
      rw [moved]
      exact border.context.unit.sameCode_reindent _ _
    unfold Line.code
    dsimp only
    rw [starts]
    exact (Scan.moved_of_sameCode sameCode).code.trim_eq.symm

namespace Wrapped

/-- A statement of a run around which the wrapper has the same blocks stays, and so do these below it. -/
theorem below_of_around
    {border again : Border}
    {line deeper : Line}
    {rest : List Line}
    (standing : Standing border (line :: rest))
    (sound : border.Sound)
    (soundAgain : again.Sound)
    (sameUnit : again.context.unit = border.context.unit)
    (sameCarry : again.carry = border.carry)
    (statement : line.isStatement = true)
    (plain : snapsToClass line = false)
    (deepened : Deepened border.context.unit line deeper)
    (sameAround : around again.frames deeper = wrappedFrames (around border.frames line)) :
    deeper.isStatement = true ∧ Remains again deeper ∧
      Wrapped (border.below line) (again.below deeper) := by
  have stands := standing.stands sound statement
  have statementAgain : deeper.isStatement = true := by
    rw [Line.isStatement, deepened.continues, deepened.category]
    exact statement
  have depth : deeper.depth = (around again.frames deeper).length := by
    rw [deepened.depth, sameAround, length_wrappedFrames, stands.depth]
  have remains : Remains again deeper := by
    refine ⟨depth, ?_, ?_⟩
    · rw [sameUnit, deepened.depth, deepened.text, IndentUnit.reindent_reindent]
    · have inMethod : (placed again.context.unit again.frames deeper).scope = .method := by
        rw [placed, sameAround, scopeOf_wrappedFrames]
      rw [Bool.eq_false_iff]
      intro leads
      rw [Line.scope_of_leadsIn leads] at inMethod
      cases inMethod
  refine ⟨statementAgain, remains, ?_, ?_, ?_, ?_, ?_⟩
  · have sameCode : line.text.SameCode deeper.text := by
      rw [deepened.text]
      exact border.context.unit.sameCode_reindent _ _
    rw [Border.below, Border.below, sameCarry, standing.carry_of_isStatement statement]
    exact Carry.neutral.after_moved (Scan.moved_of_sameCode sameCode)
  · rw [Border.below, Border.below, Context.below, Context.below, if_pos statement,
      if_pos statementAgain, deepened.category, deepened.opens, deepened.annotationOnly, sameUnit]
  · rw [again.frames_below_of_isStatement statementAgain,
      border.frames_below_of_isStatement statement]
    unfold Indent.inside
    rw [deepened.opens]
    split
    · have target := (sound.inPlace.nested.around line).bodyDepthOf_eq
      have targetAgain := (soundAgain.inPlace.nested.around deeper).bodyDepthOf_eq
      rw [targetAgain, ← depth, sameAround, target, ← stands.depth,
        frameKindOf_congr deepened.category deepened.code, deepened.depth]
      rfl
    · exact sameAround
  · exact soundAgain.below fun _ => depth
  · have noClass : line.category.isClassLevel = false := by
      simp only [snapsToClass, Bool.or_eq_false_iff] at plain
      exact plain.1.1
    rw [Border.below, Context.below, if_pos statement]
    exact noClass

/-- A line at the left margin that leads into a run is read everywhere as it is there. -/
theorem classify_eq_of_leadsIn
    {border : Border}
    {line : Line}
    {rest : List Line}
    (standing : Standing border (line :: rest))
    (leads : line.leadsIn = true)
    (atMargin : line.depth = 0)
    (opensNothing : border.context.previousOpens = false)
    (context : Context)
    {moved : Text}
    (same : line.text.SameCode moved) :
    classify context moved = classify border.context line.text := by
  have own := standing.own
  have plain := Line.snapsToClass_of_leadsIn leads
  have classified := Line.classify_of_isStatement own (Line.isStatement_of_leadsIn leads)
  have depth : border.context.unit.depth line.text = line.depth := by
    rw [← own]
    rfl
  refine classify_eq_of_plain same opensNothing ?_ ?_ ?_
  · rw [depth, atMargin]
    rfl
  · rw [classified]
    simp only [snapsToClass, Bool.or_eq_false_iff] at plain
    exact plain.1.1
  · rw [classified]
    simp only [Line.leadsIn, Bool.and_eq_true, Bool.not_eq_true'] at leads
    exact leads.1.1.1.2

/-- A statement that a run takes in is read in the wrapper as it was. -/
theorem classify_eq_of_isTakenIn
    {border : Border}
    {line : Line}
    {rest : List Line}
    (standing : Standing border (line :: rest))
    (sound : border.Sound)
    (noClass : border.context.previous.isClassLevel = false)
    (statement : line.isStatement = true)
    (takenIn : line.isTakenIn = true)
    {moved : Text}
    (same : line.text.SameCode moved)
    (deeper : border.context.unit.depth moved = line.depth + 1) :
    classify border.context moved = classify border.context line.text := by
  have own := standing.own
  have stands := standing.stands sound statement
  have plain := standing.snapsToClass_of_isTakenIn sound statement takenIn
  have depth : border.context.unit.depth line.text = line.depth := by
    rw [← own]
    rfl
  have offLevel : border.context.atClassLevel = false := by
    rw [Context.atClassLevel, noClass, Bool.false_and]
  cases atMargin : line.depth with
  | zero =>
      have noneAround : around border.frames line = [] := by
        rw [← List.length_eq_zero_iff, ← stands.depth, atMargin]
      have leads : line.leadsIn = true := by
        have atFile : line.scope = .file := by
          rw [stands.scope, noneAround]
          rfl
        have starts := Line.continues_of_isStatement statement
        have code := Line.isTrivia_of_isStatement statement
        simpa [Line.isTakenIn, Line.joinsRun, starts, code, atFile] using takenIn
      refine classify_eq_of_leadsIn standing leads atMargin ?_ _ same
      rw [← sound.awaits]
      exact awaitsBody_of_around_eq_nil plain noneAround
  | succ depthAbove =>
      refine (classify_moved_of_isLocal ⟨rfl, rfl, rfl⟩ same).1 ?_
      rw [deeper, depth, atMargin]
      simp [Context.isLocal, offLevel]

/-- A line that a run takes in stays where it is in the wrapper. -/
theorem below_of_isTakenIn
    {border again : Border}
    (wrapped : Wrapped border again)
    {line : Line}
    {rest : List Line}
    (standing : Standing border (line :: rest))
    (sound : border.Sound)
    (takenIn : line.isTakenIn = true)
    {out : Line}
    (text : out.text = Orphan.wrappedText border.context.unit line) :
    let deeper := out.readIn again.carry again.context (leadsBlock border.carry (line :: rest))
    (deeper.isStatement = true → Remains again deeper) ∧
      Wrapped (border.below line) (again.below deeper) := by
  obtain ⟨carry, context, frames⟩ := again
  obtain rfl : carry = border.carry := wrapped.carry
  obtain rfl : context = border.context := wrapped.context
  intro deeper
  have own := standing.own
  obtain ⟨same, kept⟩ := Orphan.wrappedText_moved border.context.unit own
  rw [← text] at same kept
  cases statement : line.isStatement with
  | false =>
      have stays : (line.readIn border.carry border.context
          (leadsBlock border.carry (line :: rest))).Stays deeper :=
        Line.readIn_moved border.context border.context _ same
      rw [own] at stays
      have noStatement : deeper.isStatement = false := stays.isStatement_eq.trans statement
      have never : deeper.isStatement ≠ true := by
        simp [noStatement]
      refine ⟨fun isStatement => absurd isStatement never, ?_⟩
      obtain ⟨sameContext, sameFrames⟩ := border.below_of_not_isStatement statement
      obtain ⟨sameContextAgain, sameFramesAgain⟩ :=
        Border.below_of_not_isStatement ⟨border.carry, border.context, frames⟩ noStatement
      constructor
      · exact border.carry.after_moved (Scan.moved_of_kept same kept)
      · rw [sameContext, sameContextAgain]
      · rw [sameFrames, sameFramesAgain, wrapped.frames]
      · exact wrapped.sound.below fun isStatement => absurd isStatement never
      · rw [sameContext]
        exact wrapped.plain
  | true =>
      have plain := standing.snapsToClass_of_isTakenIn sound statement takenIn
      have code := Line.all_isIndentChar_of_isStatement own statement
      have moved := text.trans (wrappedText_eq_reindent standing sound statement)
      have isDeeper : border.context.unit.depth out.text = line.depth + 1 := by
        rw [moved, border.context.unit.depth_reindent code]
      have classified := classify_eq_of_isTakenIn standing sound wrapped.plain statement takenIn
        same isDeeper
      have deepened := deepened_of_classify standing statement moved rfl classified
      have sameAround : around frames deeper = wrappedFrames (around border.frames line) := by
        have plainAgain : snapsToClass deeper = false :=
          (snapsToClass_congr deepened.category deepened.code).trans plain
        have deeperDepth : deeper.depth = line.depth + 1 := deepened.depth
        have sameFrames : frames = wrappedFrames border.frames := wrapped.frames
        rw [around, around, plainAgain, plain, if_neg Bool.false_ne_true, if_neg Bool.false_ne_true,
          deeperDepth, sameFrames, enterStatement_wrappedFrames]
      obtain ⟨_, remains, below⟩ :=
        below_of_around standing sound wrapped.sound rfl rfl statement plain deepened sameAround
      exact ⟨fun _ => remains, below⟩

end Wrapped

theorem Border.carry_belowAll
    (border : Border)
    (lines : List Line) :
    (border.belowAll lines).carry = border.carry.through (lines.map (·.text)) := by
  induction lines generalizing border with
  | nil =>
      rfl
  | cons line rest inductionHypothesis =>
      exact inductionHypothesis (border.below line)

/-- In a wrapper the lines of a run settle, if those below it do. -/
theorem Wrapped.settles_append
    {border again : Border}
    (wrapped : Wrapped border again)
    {members below moved others : List Line}
    (standing : Standing border (members ++ below))
    (sound : border.Sound)
    (takenIn : ∀ line ∈ members, line.isTakenIn = true)
    (texts : moved.map (·.text) = members.map (Orphan.wrappedText border.context.unit))
    (closed : (border.belowAll members).carry = .neutral ∨ below = [] ∧ others = [])
    (settles : ∀ inner, Wrapped (border.belowAll members) inner → Settles inner others) :
    Settles again (moved ++ others) := by
  induction members generalizing border again moved with
  | nil =>
      rw [List.map_eq_nil_iff.mp texts]
      exact settles again wrapped
  | cons line rest inductionHypothesis =>
      obtain ⟨own, restTaken⟩ := List.forall_mem_cons.mp takenIn
      have reindented := reindented_of_wrappedText border.context.unit standing.known texts
      have sameOpens : leadsBlock border.carry (moved ++ others) =
          leadsBlock border.carry (line :: rest ++ below) := by
        refine leadsBlock_append_reindented reindented (List.cons_ne_nil line rest) ?_
        rwa [← border.carry_belowAll]
      rw [List.map_cons, List.map_eq_cons_iff] at texts
      obtain ⟨out, movedRest, rfl, text, restTexts⟩ := texts
      obtain ⟨standingBelow, soundBelow⟩ := Standing.below standing sound
      obtain ⟨remains, wrappedBelow⟩ := wrapped.below_of_isTakenIn standing sound own text
      rw [List.cons_append] at sameOpens ⊢
      refine Settles.cons wrapped.sound ?_ remains ?_
      · rw [wrapped.carry, sameOpens]
        rfl
      · refine inductionHypothesis wrappedBelow standingBelow soundBelow restTaken ?_ closed settles
        rw [border.unit_below]
        exact restTexts

/-! ## Wrappers -/

/-- The border below the header of a wrapper at the margin. -/
def belowHeader
    (unit : IndentUnit)
    (method : Category) :
    Border where
  carry := .neutral
  context := { unit := unit, previous := method, previousOpens := true }
  frames := [{ kind := .method, depth := 1, headerDepth := 0 }]

/-- The header of a wrapper as it is read where nothing is open. -/
def headerRead
    (header : Line)
    (method : Category) :
    Line :=
  { header with
    depth := 0
    category := method
    continues := false
    inString := false
    opens := true
    annotationOnly := false }

section

variable
  {name : Text}
  (named : isIdentifier name = true)
  {header : Line}
  (isHeader : header.text = Orphan.headerCode name)

theorem reindent_headerCode
    (unit : IndentUnit)
    (name : Text) :
    unit.reindent (Orphan.headerCode name) 0 = Orphan.headerCode name := by
  rw [IndentUnit.reindent, IndentUnit.lead_zero]
  rfl

include named isHeader

theorem readIn_headerCode
    (context : Context)
    (rest : List Line) :
    ∃ method, method.isMethod = true ∧
      header.readIn .neutral context (leadsBlock .neutral (header :: rest)) =
        headerRead header method := by
  obtain ⟨method, isMethod, classified⟩ := Orphan.classify_headerCode named context
  refine ⟨method, isMethod, ?_⟩
  have neutral : Carry.neutral.isNeutral = true := rfl
  have depth : context.unit.depth (Orphan.headerCode name) = 0 := by
    have noIndentation : (Orphan.headerCode name).all isIndentChar = false := rfl
    have found := context.unit.depth_reindent noIndentation 0
    rwa [reindent_headerCode] at found
  have opens : leadsBlock .neutral (header :: rest) = true := by
    rw [leadsBlock_cons, isHeader, show Carry.neutral.openString = none from rfl,
      Orphan.after_headerCode named, if_pos neutral, Orphan.scan_headerCode named,
      Orphan.opensBlock_headerCode]
  have noTrivia : method.isTrivia = false := by
    cases method <;> first | rfl | cases isMethod
  simp only [Line.readIn, headerRead, opens, isHeader, classified, depth, neutral, if_true, noTrivia]
  rfl

omit named isHeader

theorem snapsToClass_of_isMethod
    {line : Line}
    (isMethod : line.category.isMethod = true) :
    snapsToClass line = true := by
  rw [snapsToClass, isMethod, Bool.or_true, Bool.true_or]

variable
  {method : Category}
  (isMethod : method.isMethod = true)

include isMethod

theorem around_headerRead
    (frames : List Frame)
    (header : Line) :
    around frames (headerRead header method) = [] := by
  have snaps : snapsToClass (headerRead header method) = true :=
    snapsToClass_of_isMethod isMethod
  have atMargin : (headerRead header method).depth = 0 := rfl
  rw [around, if_pos snaps, atMargin, enterDeclaration_zero]

include isHeader

theorem remains_headerRead
    (border : Border) :
    Remains border (headerRead header method) where
  depth := by
    rw [around_headerRead isMethod]
    rfl
  text := by
    change border.context.unit.reindent header.text 0 = header.text
    rw [isHeader, reindent_headerCode]
  housed := by
    rw [Bool.eq_false_iff]
    intro leads
    have plain := Line.snapsToClass_of_leadsIn leads
    rw [snapsToClass_of_isMethod isMethod] at plain
    cases plain

include named

theorem below_headerRead
    {border : Border}
    (neutral : border.carry = .neutral) :
    border.below (headerRead header method) = belowHeader border.context.unit method := by
  have statement : (headerRead header method).isStatement = true := by
    have noTrivia : method.isTrivia = false := by
      cases method <;> first | rfl | cases isMethod
    simp [headerRead, Line.isStatement, noTrivia]
  have kind : frameKindOf (headerRead header method) = .method := by
    have category : (headerRead header method).category = method := rfl
    rw [frameKindOf, category, if_pos isMethod]
  have opens : (headerRead header method).opens = true := rfl
  have text : (headerRead header method).text = Orphan.headerCode name := isHeader
  have closed : Carry.neutral.after
      (Scan.line Carry.neutral.openString (Orphan.headerCode name)) = .neutral :=
    Orphan.after_headerCode named
  rw [Border.below, if_pos statement, Context.below, if_pos statement, inside, if_pos opens, kind,
    around_headerRead isMethod, text, neutral, closed]
  rfl

end

/-- The header of a wrapper stays at the margin. -/
theorem remains_headerCode
    {again : Border}
    (neutral : again.carry = .neutral)
    {name : Text}
    (named : isIdentifier name = true)
    {header : Line}
    (isHeader : header.text = Orphan.headerCode name)
    (rest : List Line) :
    let read := header.readIn again.carry again.context (leadsBlock again.carry (header :: rest))
    Remains again read ∧
      ∃ method, again.below read = belowHeader again.context.unit method := by
  obtain ⟨method, isMethod, read⟩ := readIn_headerCode named isHeader again.context rest
  rw [neutral, read]
  exact ⟨remains_headerRead isHeader isMethod again, method,
    below_headerRead named isHeader isMethod neutral⟩

/-- The lead of a run stays right below the header of its wrapper. -/
theorem Wrapped.below_of_leadsIn
    {border again : Border}
    {lead : Line}
    {rest : List Line}
    (standing : Standing border (lead :: rest))
    (sound : border.Sound)
    (leads : lead.leadsIn = true)
    {method : Category}
    (isBelow : again = belowHeader border.context.unit method)
    (soundAgain : again.Sound)
    {out : Line}
    (text : out.text = Orphan.wrappedText border.context.unit lead) :
    let deeper := out.readIn again.carry again.context (leadsBlock again.carry (lead :: rest))
    Remains again deeper ∧ Wrapped (border.below lead) (again.below deeper) := by
  obtain ⟨noneAround, atMargin, opensNothing⟩ := standing.margin_of_leadsIn sound leads
  have statement := Line.isStatement_of_leadsIn leads
  have plain := Line.snapsToClass_of_leadsIn leads
  have neutral := standing.carry_of_isStatement statement
  have moved := text.trans (wrappedText_eq_reindent standing sound statement)
  have sameCode : lead.text.SameCode out.text := by
    rw [moved]
    exact border.context.unit.sameCode_reindent _ _
  have sameCarry : again.carry = border.carry := by
    rw [isBelow, neutral]
    rfl
  have sameUnit : again.context.unit = border.context.unit := by
    rw [isBelow]
    rfl
  have sameClass : classify again.context out.text = classify border.context lead.text :=
    classify_eq_of_leadsIn standing leads atMargin opensNothing _ sameCode
  intro deeper
  have deepened : Deepened border.context.unit lead deeper := by
    have found := deepened_of_classify standing statement moved sameUnit sameClass
    rwa [← sameCarry] at found
  have plainAgain : snapsToClass deeper = false :=
    (snapsToClass_congr deepened.category deepened.code).trans plain
  have sameAround : around again.frames deeper = wrappedFrames (around border.frames lead) := by
    have deeperDepth : deeper.depth = 1 := by
      rw [deepened.depth, atMargin]
    rw [noneAround, around, plainAgain, if_neg Bool.false_ne_true, deeperDepth, isBelow]
    rfl
  exact (below_of_around standing sound soundAgain sameUnit sameCarry statement plain deepened
    sameAround).2

/-- A wrapper settles, if the lines below it do. -/
theorem settles_wrapper
    {border again : Border}
    (sound : border.Sound)
    (soundAgain : again.Sound)
    (sameUnit : again.context.unit = border.context.unit)
    (neutral : again.carry = .neutral)
    {lead header : Line}
    {members below moved others : List Line}
    {name : Text}
    (standing : Standing border (lead :: members ++ below))
    (isRun : IsRun lead members below)
    (named : isIdentifier name = true)
    (isHeader :
      header.text = border.context.unit.lead lead.depth ++ Orphan.headerCode name)
    (texts : moved.map (·.text) =
      (lead :: members).map (Orphan.wrappedText border.context.unit))
    (closed : (border.belowAll (lead :: members)).carry = .neutral ∨ below = [] ∧ others = [])
    (settles : ∀ inner, Wrapped (border.belowAll (lead :: members)) inner → Settles inner others) :
    Settles again (header :: moved ++ others) := by
  have leads := isRun.leads
  have atMargin := (standing.margin_of_leadsIn sound leads).2.1
  have headerText : header.text = Orphan.headerCode name := by
    rw [isHeader, atMargin, IndentUnit.lead_zero, List.nil_append]
  have borderNeutral := standing.carry_of_isStatement (Line.isStatement_of_leadsIn leads)
  obtain ⟨headerRemains, method, isBelow⟩ :=
    remains_headerCode neutral named headerText (moved ++ others)
  have soundBelow := soundAgain.below fun _ => headerRemains.depth
  rw [sameUnit] at isBelow
  rw [List.cons_append]
  refine .cons soundAgain rfl (fun _ => headerRemains) ?_
  have reindented := reindented_of_wrappedText border.context.unit standing.known texts
  have sameOpens : leadsBlock .neutral (moved ++ others) =
      leadsBlock .neutral (lead :: members ++ below) := by
    rw [borderNeutral] at reindented
    refine leadsBlock_append_reindented reindented (List.cons_ne_nil lead members) ?_
    rwa [border.carry_belowAll, borderNeutral] at closed
  rw [List.map_cons, List.map_eq_cons_iff] at texts
  obtain ⟨out, movedRest, rfl, text, restTexts⟩ := texts
  rw [isBelow] at soundBelow ⊢
  obtain ⟨leadRemains, wrapped⟩ :=
    Wrapped.below_of_leadsIn standing sound leads rfl soundBelow text
  obtain ⟨standingBelow, borderBelow⟩ := Standing.below standing sound
  rw [List.cons_append]
  refine .cons soundBelow ?_ (fun _ => leadRemains) ?_
  · exact congrArg (out.readIn _ _) sameOpens
  · refine wrapped.settles_append standingBelow borderBelow isRun.takenIn ?_ closed settles
    rw [border.unit_below]
    exact restTexts

end Indent

end ScriptUplift
