import Mathlib.Tactic.Common
import ScriptUplift.Proofs.Nesting
import ScriptUplift.Proofs.Settled

namespace ScriptUplift

/-!
# Repairing indentation twice

A second repair of a file finds every line at the depth the first one gave it.
It also reads the file anew, and may take for a misplaced member what was read
as a local before.  This happens at the left margin only, so that the blocks
open in the second repair are those of the first, found where they belong.
-/

namespace Context

/-- Whether a field or constant at a depth is read as a local. -/
def isLocal
    (context : Context)
    (depth : Nat) :
    Bool :=
  0 < depth && !context.atClassLevel

theorem Alike.symm
    {first second : Context}
    (alike : first.Alike second) :
    second.Alike first :=
  ⟨alike.unit.symm, alike.opens.symm, alike.pending.symm⟩

end Context

namespace Category

/-- A category stays, or what was no declaration turns out to be a member. -/
inductive Surfaces : Category → Category → Prop
  | stays (category : Category) :
      Surfaces category category
  | surfaces
      {category : Category}
      (member : category.isClassLevel = true) :
      Surfaces .other category

theorem ite_surfaces
    {condition : Prop}
    [Decidable condition]
    {first second firstAgain secondAgain : Category}
    (ofFirst : first.Surfaces firstAgain)
    (ofSecond : second.Surfaces secondAgain) :
    (if condition then first else second).Surfaces
      (if condition then firstAgain else secondAgain) := by
  split <;> assumption

/-- The depth and the context of a declaration matter to whether it is a local and no more. -/
theorem ofKeywordWithin_eq_of_isLocal
    {first second : Context}
    (sameOpens : first.previousOpens = second.previousOpens)
    {firstDepth secondDepth : Nat}
    (sameLocal : second.isLocal secondDepth = first.isLocal firstDepth)
    (kind : AnnotationKind)
    (limit : Nat)
    (code : Text) :
    ofKeywordWithin second secondDepth kind limit code =
      ofKeywordWithin first firstDepth kind limit code := by
  unfold Context.isLocal at sameLocal
  induction limit generalizing code with
  | zero =>
      rfl
  | succ limit inductionHypothesis =>
      simp only [ofKeywordWithin, ofField, sameLocal, sameOpens, inductionHypothesis]

theorem ofField_surfaces
    {first second : Context}
    (sameOpens : first.previousOpens = second.previousOpens)
    {firstDepth secondDepth : Nat}
    (firstLocal : first.isLocal firstDepth = true)
    (secondMember : second.isLocal secondDepth = false)
    (kind : AnnotationKind)
    (after : Text) :
    (ofField first firstDepth kind after).Surfaces (ofField second secondDepth kind after) := by
  unfold Context.isLocal at firstLocal secondMember
  have fields (category : Category) (field : category.isField = true) :
      category.isClassLevel = true := by
    cases category <;> first | rfl | cases field
  unfold ofField
  rw [sameOpens, firstLocal, secondMember]
  refine ite_surfaces (.stays _) ?_
  cases kind with
  | absent =>
      refine .surfaces (fields _ ?_)
      rw [if_neg (by simp)]
      dsimp only
      split <;> rfl
  | plain | onready | exported | header =>
      exact .stays _

/-- What is a local in one place is a local or a member in any other. -/
theorem ofKeywordWithin_surfaces
    {first second : Context}
    (sameOpens : first.previousOpens = second.previousOpens)
    {firstDepth secondDepth : Nat}
    (firstLocal : first.isLocal firstDepth = true)
    (secondMember : second.isLocal secondDepth = false)
    (kind : AnnotationKind)
    (limit : Nat)
    (code : Text) :
    (ofKeywordWithin first firstDepth kind limit code).Surfaces
      (ofKeywordWithin second secondDepth kind limit code) := by
  induction limit generalizing code with
  | zero =>
      exact .stays _
  | succ limit inductionHypothesis =>
      have constants :
          (if (0 < firstDepth && !first.atClassLevel) = true then Category.other
            else .constant).Surfaces
          (if (0 < secondDepth && !second.atClassLevel) = true then Category.other
            else .constant) := by
        unfold Context.isLocal at firstLocal secondMember
        rw [firstLocal, secondMember]
        exact .surfaces rfl
      unfold ofKeywordWithin
      dsimp only
      repeat'
        first
        | exact .stays _
        | exact constants
        | exact ofField_surfaces sameOpens firstLocal secondMember kind _
        | exact inductionHypothesis _
        | apply ite_surfaces

end Category

/-- The categories of a line read in two places, with what it holds told alike. -/
structure Line.Resurfaces
    (before after : Category × Bool) :
    Prop where
  category : before.1.Surfaces after.1
  annotationOnly : after.2 = before.2
  annotations : before.2 = true → after.1 = before.1

/-- Reading depends on the place of a line in that a local may turn out to be a member. -/
theorem classify_moved_of_isLocal
    {first second : Context}
    (alike : first.Alike second)
    {text moved : Text}
    (same : text.SameCode moved) :
    (second.isLocal (second.unit.depth moved) = first.isLocal (first.unit.depth text) →
        classify second moved = classify first text) ∧
      (first.isLocal (first.unit.depth text) = true →
        second.isLocal (second.unit.depth moved) = false →
        Line.Resurfaces (classify first text) (classify second moved)) := by
  have sameTrim := (Scan.moved_of_sameCode same).code.trim_eq
  have unmoved (found : Category × Bool) : Line.Resurfaces found found :=
    ⟨.stays _, rfl, fun _ => rfl⟩
  unfold classify
  dsimp only
  rw [← same.isBlank_eq, ← sameTrim]
  split
  · exact ⟨fun _ => rfl, fun _ _ => unmoved _⟩
  · split
    · exact ⟨fun _ => rfl, fun _ _ => unmoved _⟩
    · split
      · have sameAnnotations (kind : AnnotationKind) :
            classifyAnnotations second kind = classifyAnnotations first kind := by
          unfold classifyAnnotations
          rw [alike.pending]
        rw [sameAnnotations]
        exact ⟨fun _ => rfl, fun _ _ => unmoved _⟩
      · rw [alike.pending]
        constructor
        · intro sameLocal
          rw [Category.ofKeyword, Category.ofKeywordWithin_eq_of_isLocal alike.opens sameLocal]
          rfl
        · intro firstLocal secondMember
          exact ⟨Category.ofKeywordWithin_surfaces alike.opens firstLocal secondMember _ _ _, rfl,
            fun impossible => absurd impossible Bool.false_ne_true⟩

namespace Indent

/--
Blocks that are open in a second repair: those of the first, each found at the
depth at which it belongs.
-/
inductive FoundInPlace : List Frame → List Frame → Prop
  | nil :
      FoundInPlace [] []
  | cons
      {frame again : Frame}
      {outer others : List Frame}
      (kind : again.kind = frame.kind)
      (depth : again.depth = outer.length + 1)
      (headerDepth : again.headerDepth = outer.length)
      (bodyDepth : again.bodyDepth = frame.bodyDepth.map fun _ => outer.length + 1)
      (below : FoundInPlace outer others) :
      FoundInPlace (frame :: outer) (again :: others)

namespace FoundInPlace

theorem bodyDepthOf_eq
    {frames again : List Frame}
    (inPlace : FoundInPlace frames again) :
    bodyDepthOf again = frames.length := by
  cases inPlace with
  | nil =>
      rfl
  | cons kind depth headerDepth bodyDepth below =>
      exact depth

theorem scopeOf_eq
    {frames again : List Frame}
    (inPlace : FoundInPlace frames again) :
    scopeOf again = scopeOf frames := by
  have sameKinds : again.map (·.kind) = frames.map (·.kind) := by
    induction inPlace with
    | nil =>
        rfl
    | cons kind _ _ _ _ inductionHypothesis =>
        simp [kind, inductionHypothesis]
  have sameAny (kind : FrameKind) :
      again.any (·.kind == kind) = frames.any (·.kind == kind) := by
    simpa [List.any_map, Function.comp_def] using congrArg (·.any (· == kind)) sameKinds
  unfold scopeOf
  rw [sameAny, sameAny, sameAny]

theorem awaitsBody_eq
    {frames again : List Frame}
    (inPlace : FoundInPlace frames again) :
    awaitsBody again = awaitsBody frames := by
  cases inPlace with
  | nil =>
      rfl
  | cons kind depth headerDepth bodyDepth below =>
      simp [awaitsBody, bodyDepth]

/-- The first line of a body is found in place. -/
theorem beginInnermost
    {frames again : List Frame}
    (inPlace : FoundInPlace frames again)
    (found : Nat) :
    FoundInPlace (beginInnermost found frames) (beginInnermost frames.length again) := by
  cases inPlace with
  | nil =>
      exact .nil
  | @cons frame other outer others kind depth headerDepth bodyDepth below =>
      refine .cons kind depth headerDepth ?_ below
      unfold Frame.begin
      dsimp only
      rw [bodyDepth, headerDepth]
      cases frame.bodyDepth <;> simp

/-- Found in place, a declaration leaves the same blocks open. -/
theorem dropToClass
    {frames again : List Frame}
    (inPlace : FoundInPlace frames again)
    (found : Nat) :
    FoundInPlace (dropToClass found frames)
      (dropToClass (dropToClass found frames).length again) := by
  induction inPlace with
  | nil =>
      exact .nil
  | @cons frame other outer others kind depth headerDepth bodyDepth below inductionHypothesis =>
      by_cases stays : frame.kind = .innerClass ∧ frame.headerDepth < found
      · have staysAgain : other.kind = .innerClass ∧
            other.headerDepth < (frame :: outer).length := by
          rw [kind, headerDepth]
          exact ⟨stays.1, Nat.lt_succ_self _⟩
        rw [Indent.dropToClass, if_pos stays, Indent.dropToClass, if_pos staysAgain]
        exact .cons kind depth headerDepth bodyDepth below
      · have closesAgain : ¬(other.kind = .innerClass ∧
            other.headerDepth < (Indent.dropToClass found outer).length) := by
          rw [headerDepth]
          exact fun stands => Nat.not_lt.mpr (length_dropToClass_le found outer) stands.2
        rw [Indent.dropToClass, if_neg stays, Indent.dropToClass, if_neg closesAgain]
        exact inductionHypothesis

/-- Found in place, a plain statement leaves the same blocks open. -/
theorem closeDeeper
    {frames again : List Frame}
    (inPlace : FoundInPlace frames again)
    (found : Nat) :
    FoundInPlace (closeDeeper found frames)
      (closeDeeper (closeDeeper found frames).length again) := by
  induction inPlace with
  | nil =>
      exact .nil
  | @cons frame other outer others kind depth headerDepth bodyDepth below inductionHypothesis =>
      by_cases closes : frame.bodyDepth.any (found < ·) = true
      · have closesAgain :
            other.bodyDepth.any ((Indent.closeDeeper found outer).length < ·) = true := by
          obtain ⟨body, isBody, _⟩ := (Option.any_eq_true _ _).mp closes
          rw [bodyDepth, isBody]
          simpa using Nat.lt_succ_of_le (length_closeDeeper_le found outer)
        rw [Indent.closeDeeper, if_pos closes, Indent.closeDeeper, if_pos closesAgain]
        exact inductionHypothesis
      · have staysAgain : ¬(other.bodyDepth.any ((frame :: outer).length < ·) = true) := by
          rw [bodyDepth]
          cases frame.bodyDepth <;> simp
        rw [Indent.closeDeeper, if_neg closes, Indent.closeDeeper, if_neg staysAgain]
        exact .cons kind depth headerDepth bodyDepth below

theorem enterDeclaration
    {frames again : List Frame}
    (inPlace : FoundInPlace frames again)
    (found : Nat) :
    FoundInPlace (enterDeclaration frames found)
      (enterDeclaration again (enterDeclaration frames found).length) := by
  unfold Indent.enterDeclaration
  rw [length_beginInnermost]
  exact (inPlace.dropToClass found).beginInnermost found

theorem enterStatement
    {frames again : List Frame}
    (inPlace : FoundInPlace frames again)
    (found : Nat) :
    FoundInPlace (enterStatement frames found)
      (enterStatement again (enterStatement frames found).length) := by
  cases waiting : awaitsBody frames with
  | true =>
      rw [enterStatement_of_awaitsBody waiting, length_beginInnermost,
        enterStatement_of_awaitsBody (inPlace.awaitsBody_eq.trans waiting)]
      exact inPlace.beginInnermost found
  | false =>
      rw [enterStatement_of_not_awaitsBody waiting,
        enterStatement_of_not_awaitsBody (inPlace.awaitsBody_eq.trans waiting)]
      exact inPlace.closeDeeper found

end FoundInPlace

/-- At the left margin a declaration closes every block. -/
theorem enterDeclaration_zero
    (frames : List Frame) :
    enterDeclaration frames 0 = [] := by
  have closesAll : dropToClass 0 frames = [] := by
    induction frames with
    | nil =>
        rfl
    | cons frame outer inductionHypothesis =>
        rw [dropToClass, if_neg (by omega), inductionHypothesis]
  rw [enterDeclaration, closesAll]
  rfl

/--
A statement as a second repair finds it: where the first one moved it, and read
as it was unless it turned out to be a member at the left margin.
-/
structure FoundAgain
    (frames : List Frame)
    (line again : Line) :
    Prop where
  depth : again.depth = (around frames line).length
  code : again.code = line.code
  opens : again.opens = line.opens
  annotationOnly : again.annotationOnly = line.annotationOnly
  category :
    again.category = line.category ∨
      line.category = .other ∧ line.annotationOnly = false ∧
        again.category.isClassLevel = true ∧ around frames line = []

namespace FoundAgain

/-- A second repair leaves the same blocks open around a statement. -/
theorem around
    {frames framesAgain : List Frame}
    {line again : Line}
    (foundAgain : FoundAgain frames line again)
    (inPlace : FoundInPlace frames framesAgain) :
    FoundInPlace (around frames line) (around framesAgain again) := by
  rcases foundAgain.category with same | ⟨_, _, member, margin⟩
  · have snaps : snapsToClass again = snapsToClass line := by
      rw [snapsToClass, same, foundAgain.code]
      rfl
    have depth := foundAgain.depth
    unfold Indent.around at depth ⊢
    rw [snaps]
    split
    · rename_i declares
      rw [if_pos declares] at depth
      rw [depth]
      exact inPlace.enterDeclaration line.depth
    · rename_i plain
      rw [if_neg plain] at depth
      rw [depth]
      exact inPlace.enterStatement line.depth
  · have depth := foundAgain.depth
    rw [margin] at depth ⊢
    unfold Indent.around
    rw [if_pos (by simp [snapsToClass, member]), depth]
    rw [List.length_nil, enterDeclaration_zero]
    exact .nil

theorem frameKindOf_eq
    {frames : List Frame}
    {line again : Line}
    (foundAgain : FoundAgain frames line again) :
    frameKindOf again = frameKindOf line := by
  have sameMethod : again.category.isMethod = line.category.isMethod := by
    rcases foundAgain.category with same | ⟨other, _, member, _⟩
    · rw [same]
    · rw [other]
      cases kind : again.category <;> first | rfl | simp [kind, Category.isClassLevel] at member
  unfold frameKindOf
  rw [sameMethod, foundAgain.code]

/-- A second repair opens the same blocks. -/
theorem inside
    {frames framesAgain : List Frame}
    {line again : Line}
    (foundAgain : FoundAgain frames line again)
    (inPlace : FoundInPlace frames framesAgain) :
    FoundInPlace (inside frames line) (inside framesAgain again) := by
  have aroundInPlace := foundAgain.around inPlace
  unfold Indent.inside
  rw [foundAgain.opens]
  split
  · exact .cons foundAgain.frameKindOf_eq (congrArg (· + 1) aroundInPlace.bodyDepthOf_eq)
      foundAgain.depth rfl aroundInPlace
  · exact aroundInPlace

end FoundAgain

/--
Contexts in which the lines below open blocks are read first and again: alike,
but that a member at the left margin may stand above where none was seen before.
-/
structure ReadAgain
    (frames : List Frame)
    (before after : Context) :
    Prop where
  alike : before.Alike after
  kept : before.atClassLevel = true → after.atClassLevel = true
  margin : before.atClassLevel = false → after.atClassLevel = true → frames = []

/-- Below a statement the contexts are related as above it. -/
theorem ReadAgain.below
    {frames : List Frame}
    {before after : Context}
    (contexts : ReadAgain frames before after)
    {line again : Line}
    (foundAgain : FoundAgain frames line again)
    (statement : line.isStatement = true)
    (statementAgain : again.isStatement = true) :
    ReadAgain (inside frames line) (before.below line) (after.below again) := by
  unfold Context.below
  rw [if_pos statement, if_pos statementAgain, foundAgain.opens, foundAgain.annotationOnly]
  rcases foundAgain.category with same | ⟨other, code, _, atMargin⟩
  · rw [same]
    exact ⟨⟨contexts.alike.unit, rfl, rfl⟩, id, fun isFalse isTrue =>
      absurd (isFalse.symm.trans isTrue) Bool.false_ne_true⟩
  · rw [other, code]
    refine ⟨⟨contexts.alike.unit, rfl, rfl⟩, fun impossible => ?_, fun _ isMember => ?_⟩
    · simp [Context.atClassLevel, Category.isClassLevel] at impossible
    · have opensNothing : line.opens = false := by
        simp only [Context.atClassLevel, Bool.and_eq_true, Bool.not_eq_true'] at isMember
        exact isMember.2
      unfold Indent.inside
      rw [if_neg (by simp [opensNothing]), atMargin]

/-- Right of the left margin a second reading finds what the first one found. -/
theorem resurfaces_at_margin
    {frames : List Frame}
    {before after : Context}
    (contexts : ReadAgain frames before after)
    {line : Line}
    {moved : Text}
    (same : line.text.SameCode moved)
    (depth : line.depth = before.unit.depth line.text)
    (category : line.category = (classify before line.text).1)
    (movedDepth : after.unit.depth moved = (around frames line).length) :
    (classify after moved).1 = (classify before line.text).1 ∨
      (classify before line.text).1 = .other ∧ (classify before line.text).2 = false ∧
        (classify after moved).1.isClassLevel = true ∧ around frames line = [] := by
  obtain ⟨sameLocal, resurfaces⟩ := classify_moved_of_isLocal contexts.alike same
  have resurfacesBack := (classify_moved_of_isLocal contexts.alike.symm same.symm).2
  cases isLocal : before.isLocal (before.unit.depth line.text) with
  | true =>
      cases isLocalAgain : after.isLocal (after.unit.depth moved) with
      | true =>
          exact .inl (congrArg Prod.fst (sameLocal (isLocalAgain.trans isLocal.symm)))
      | false =>
          obtain ⟨category, _, annotations⟩ := resurfaces isLocal isLocalAgain
          generalize (classify before line.text).1 = first at category annotations ⊢
          cases category with
          | stays =>
              exact .inl rfl
          | surfaces member =>
              refine .inr ⟨rfl, ?_, member, ?_⟩
              · rw [Bool.eq_false_iff]
                intro annotated
                rw [annotations annotated] at member
                cases member
              · -- Nothing but the margin makes a member of a local.
                simp only [Context.isLocal, Bool.and_eq_true, decide_eq_true_eq,
                  Bool.not_eq_true', Bool.and_eq_false_iff, decide_eq_false_iff_not,
                  Bool.not_eq_false'] at isLocal isLocalAgain
                rw [← List.length_eq_zero_iff]
                rcases isLocalAgain with margin | atClassLevel
                · omega
                · have shorter := length_around_le frames line
                  rw [contexts.margin isLocal.2 atClassLevel] at shorter ⊢
                  exact Nat.le_zero.mp shorter
  | false =>
      cases isLocalAgain : after.isLocal (after.unit.depth moved) with
      | false =>
          exact .inl (congrArg Prod.fst (sameLocal (isLocalAgain.trans isLocal.symm)))
      | true =>
          have surfaces := (resurfacesBack isLocalAgain isLocal).category
          generalize firstRead : (classify before line.text).1 = first at surfaces category ⊢
          generalize (classify after moved).1 = second at surfaces ⊢
          cases surfaces with
          | stays =>
              exact .inl rfl
          | surfaces member =>
              -- A member at the margin is kept there, so that it is no local afterwards.
              exfalso
              simp only [Context.isLocal, Bool.and_eq_true, decide_eq_true_eq, Bool.not_eq_true',
                Bool.and_eq_false_iff, decide_eq_false_iff_not, Bool.not_eq_false']
                at isLocal isLocalAgain
              have notBefore : before.atClassLevel ≠ true := by
                intro atClassLevel
                rw [contexts.kept atClassLevel] at isLocalAgain
                cases isLocalAgain.2
              have margin : line.depth = 0 := by
                rw [depth]
                exact Nat.eq_zero_of_not_pos (isLocal.resolve_right notBefore)
              have nothing : around frames line = [] := by
                unfold around
                rw [if_pos (by simp [snapsToClass, category, member]), margin,
                  enterDeclaration_zero]
              rw [movedDepth, nothing] at isLocalAgain
              exact Nat.lt_irrefl 0 isLocalAgain.1

end Indent

namespace Indent

/-- A statement that was moved is found again. -/
theorem foundAgain_of_repaired
    {frames : List Frame}
    (nested : Nested frames)
    {before after : Context}
    (contexts : ReadAgain frames before after)
    {carry : Carry}
    {opens : Bool}
    {line : Line}
    (known : line.readIn carry before opens = line)
    (statement : line.isStatement = true) :
    FoundAgain frames line ((placed before.unit frames line).readIn carry after opens) := by
  have same : line.text.SameCode (placed before.unit frames line).text :=
    before.unit.sameCode_reindent line.text _
  have stays : (line.readIn carry before opens).Stays
      ((placed before.unit frames line).readIn carry after opens) :=
    Line.readIn_moved before after opens same
  rw [known] at stays
  have neutral := Line.isNeutral_of_isStatement known statement
  have classified (context : Context) (other : Line) :
      (other.readIn carry context opens).category = (classify context other.text).1 ∧
        (other.readIn carry context opens).annotationOnly = (classify context other.text).2 := by
    simp [Line.readIn, neutral]
  have category := (classified before line).1
  have annotationOnly := (classified before line).2
  have depth : (line.readIn carry before opens).depth = before.unit.depth line.text := rfl
  rw [known] at category annotationOnly depth
  have placedDepth : after.unit.depth (placed before.unit frames line).text =
      (around frames line).length := by
    rw [← contexts.alike.unit]
    exact depth_placed _ nested (Line.all_isIndentChar_of_isStatement known statement)
  constructor
  · exact placedDepth
  · have starts : line.continues = false := by
      rw [← known]
      simp [Line.readIn, neutral]
    unfold Line.code
    rw [stays.continues, starts]
    exact (Scan.moved_of_sameCode same).code.trim_eq.symm
  · exact stays.opens
  · exact stays.annotationOnly
  · rw [(classified after _).1, category, annotationOnly]
    exact resurfaces_at_margin contexts same depth category placedDepth

section

variable
  {frames framesAgain : List Frame}
  {line again : Line}
  (foundAgain : FoundAgain frames line again)
  (inPlace : FoundInPlace frames framesAgain)

include foundAgain inPlace

/-- A statement that is found again is in its place, with the scope and the text it was given. -/
theorem placed_of_foundAgain
    (nested : Nested frames)
    {unit : IndentUnit}
    (scope : again.scope = scopeOf (around frames line))
    (text : again.text = unit.reindent line.text (bodyDepthOf (around frames line))) :
    placed unit framesAgain again = again := by
  have aroundAgain := foundAgain.around inPlace
  rw [placed, aroundAgain.scopeOf_eq, aroundAgain.bodyDepthOf_eq, ← scope, text,
    IndentUnit.reindent_reindent, ← (nested.around line).bodyDepthOf_eq, ← text]

/-- What follows a statement that is found again is not moved. -/
theorem shift_of_foundAgain :
    (bodyDepthOf (around framesAgain again) : Int) - again.depth = 0 := by
  rw [(foundAgain.around inPlace).bodyDepthOf_eq, foundAgain.depth]
  exact Int.sub_self _

end

/-- Blocks and contexts that are related hold every repaired line where it is. -/
theorem repairLines_again
    {frames framesAgain : List Frame}
    (nested : Nested frames)
    (inPlace : FoundInPlace frames framesAgain)
    {before after : Context}
    (contexts : ReadAgain frames before after)
    (shift : Int)
    {carry : Carry}
    {lines : List Line}
    (fresh : readLines carry before lines = lines) :
    let repaired := readLines carry after (repairLines before.unit frames shift lines)
    repairLines before.unit framesAgain 0 repaired = repaired := by
  induction lines generalizing frames framesAgain before after shift carry with
  | nil =>
      rfl
  | cons line rest inductionHypothesis =>
      have repaired := repairLines_reindented before.unit frames shift fresh
      have same := readLines_reindented before after repaired
      rw [fresh] at same
      rw [readLines_cons, List.cons.injEq] at fresh
      obtain ⟨known, restFresh⟩ := fresh
      rw [known] at restFresh
      cases statement : line.isStatement with
      | false =>
          rw [repairLines_of_not_isStatement _ _ _ statement] at repaired same ⊢
          rw [readLines_cons, List.forall₂_cons] at same
          cases repaired with
          | cons sameCode kept _ =>
              dsimp only
              rw [readLines_cons]
              have statementAgain := same.1.isStatement_eq.trans statement
              rw [carry.after_moved (Scan.moved_of_kept sameCode kept)]
              have noBelow : before.below line = before := by
                simp [Context.below, statement]
              generalize readIsAgain : Line.readIn _ carry after _ = again at statementAgain ⊢
              have noBelowAgain : after.below again = after := by
                simp [Context.below, statementAgain]
              rw [noBelow] at restFresh
              rw [noBelowAgain, repairLines_of_not_isStatement _ _ _ statementAgain,
                inductionHypothesis nested inPlace contexts shift restFresh, inPlace.scopeOf_eq]
              have sameScope : again.scope = scopeOf frames := by
                rw [← readIsAgain]
                rfl
              simp [← sameScope]
      | true =>
          rw [repairLines_statement _ _ _ statement] at repaired same ⊢
          have sameOpens := @leadsBlock_reindented carry (line :: rest) _ repaired
          rw [readLines_cons, List.forall₂_cons] at same
          cases repaired with
          | cons sameCode kept _ =>
              dsimp only
              have statementAgain := same.1.isStatement_eq.trans statement
              have foundAgain := foundAgain_of_repaired nested contexts known statement
              rw [readLines_cons, carry.after_moved (Scan.moved_of_kept sameCode kept)]
              rw [sameOpens] at statementAgain ⊢
              generalize readIsAgain : Line.readIn _ carry after _ = again
                at statementAgain foundAgain ⊢
              have inPlaceAgain : placed before.unit framesAgain again = again :=
                placed_of_foundAgain foundAgain inPlace nested (readIsAgain ▸ rfl) (readIsAgain ▸ rfl)
              rw [repairLines_statement _ _ _ statementAgain, inPlaceAgain,
                shift_of_foundAgain foundAgain inPlace]
              have unitBelow := before.unit_below line
              have restAgain := inductionHypothesis (nested.inside line)
                (foundAgain.inside inPlace)
                (contexts.below foundAgain statement statementAgain)
                ((bodyDepthOf (around frames line) : Int) - line.depth) restFresh
              rw [unitBelow] at restAgain
              rw [restAgain]

end Indent

namespace Source

/--
Repaired once, a script is in repair: whatever its whitespace was, under every
style and with any rules switched off, a second repair finds every line in its
place.  It changes no text and counts nothing.
-/
theorem repair_twice_changes_nothing_more
    (style : IndentUnit.Style)
    (width : Int)
    (rules : List UpliftRule)
    (path : String)
    (content : Text) :
    let once := (((ofContent path content).classifyStage style width).upliftStage rules).indentStage
    once.indentStage.texts = once.texts ∧
      once.indentStage.lines = once.lines ∧
      once.indentStage.counted Indent.repairCounter = once.counted Indent.repairCounter := by
  intro once
  have consistent := (classifyStage_consistent style width (ofContent path content)).upliftStage rules
  have sameUnit := unit_indentStage consistent
  have lines := lines_indentStage consistent
  have inPlace : once.placedLines = once.lines := by
    unfold placedLines
    rw [sameUnit, lines]
    have nested : Indent.Nested [] := trivial
    have contexts (context : Context) : Indent.ReadAgain [] context context :=
      ⟨⟨rfl, rfl, rfl⟩, id, fun _ _ => rfl⟩
    exact Indent.repairLines_again nested .nil (contexts _) 0 consistent.fresh
  have sameTexts : once.placedLines.map (·.text) = once.texts := by
    rw [inPlace]
    rfl
  have sameLines : once.indentStage.lines = once.lines := by
    rw [indentStage_lines_of_placed sameTexts, inPlace]
  refine ⟨?_, sameLines, (indentStage_idle once).2.mpr sameTexts Indent.repairCounter⟩
  unfold texts
  rw [sameLines]

end Source

end ScriptUplift
