import Mathlib.Data.List.Chain
import Mathlib.Tactic.Common
import ScriptUplift.Proofs.WrappedRuns

namespace ScriptUplift

/-!
# Orphan repair is stable

After orphan repair, indentation repair finds every line in its place, and no
statement is stranded again.  To see this, the file before orphan repair and the
file after it are gone through side by side.  Between the runs the same blocks
are open in both.  Below a run nothing is open around the next statement, and an
annotation that stood above a suppressed run is pending below it; there fields
and annotations may be told differently from each other.

One thing may disturb this: annotations at file scope that end in a colon, as if
they opened a block, with more annotations right below.  Files with such
annotations are left out.
-/

/-- Below a line of annotations that opens a block at file scope stand no annotations. -/
def Line.StaysFlat
    (above below : Line) :
    Prop :=
  ¬(above.annotationOnly = true ∧ above.scope = .file ∧ above.opens = true ∧
    below.annotationOnly = true)

instance (above below : Line) : Decidable (above.StaysFlat below) :=
  inferInstanceAs (Decidable (¬_))

/-- No statement of annotations only opens a block at file scope that begins with another one. -/
def AnnotationsStayFlat
    (lines : List Line) :
    Prop :=
  (lines.filter (·.isStatement)).IsChain Line.StaysFlat

instance (lines : List Line) : Decidable (AnnotationsStayFlat lines) :=
  inferInstanceAs (Decidable (List.IsChain _ _))

namespace AnnotationsStayFlat

theorem of_append
    {first second : List Line}
    (flat : AnnotationsStayFlat (first ++ second)) :
    AnnotationsStayFlat second := by
  unfold AnnotationsStayFlat at flat ⊢
  rw [List.filter_append] at flat
  exact flat.right_of_append

theorem of_cons
    {line : Line}
    {rest : List Line}
    (flat : AnnotationsStayFlat (line :: rest))
    (statement : line.isStatement = true) :
    ∀ next ∈ rest.find? (·.isStatement), line.StaysFlat next := by
  unfold AnnotationsStayFlat at flat
  rw [List.filter_cons_of_pos statement, List.isChain_cons] at flat
  rw [← List.head?_filter]
  exact flat.1

end AnnotationsStayFlat

namespace Indent

/--
A border of a file before orphan repair, and the border at the same place after
it: the same blocks are open and the next statement is read alike, or nothing is
open around it.
-/
inductive Abreast
    (next : Option Line)
    (border again : Border) :
    Prop
  | alike
      (frames : again.frames = border.frames)
      (opens : again.context.previousOpens = border.context.previousOpens)
      (reads : ∀ line ∈ next,
        classify again.context line.text = classify border.context line.text)
  | margin
      (outside : ∀ line ∈ next, around border.frames line = [])
      (pending : border.context.Alike again.context ∨ again.context.previousOpens = false)

/-- What a kept statement is read as after orphan repair: the same, in another category perhaps. -/
structure Reread
    (context : Context)
    (line read : Line) :
    Prop where
  text : read.text = line.text
  depth : read.depth = line.depth
  code : read.code = line.code
  opens : read.opens = line.opens
  annotationOnly : read.annotationOnly = line.annotationOnly
  continues : read.continues = line.continues
  statement : read.isStatement = true
  category : read.category = (classify context line.text).1

theorem reread_of_kept
    {border : Border}
    {line out : Line}
    {rest : List Line}
    (standing : Standing border (line :: rest))
    (statement : line.isStatement = true)
    (text : out.text = line.text)
    {context : Context}
    (sameUnit : context.unit = border.context.unit) :
    Reread context line
      (out.readIn border.carry context (leadsBlock border.carry (line :: rest))) := by
  have own := standing.own
  have neutral := Line.isNeutral_of_isStatement own statement
  have same : line.text.SameCode out.text := by
    rw [text]
    exact .refl _
  have stays : (line.readIn border.carry border.context
      (leadsBlock border.carry (line :: rest))).Stays
        (out.readIn border.carry context (leadsBlock border.carry (line :: rest))) :=
    Line.readIn_moved border.context context _ same
  rw [own] at stays
  refine ⟨text, ?_, ?_, stays.opens, stays.annotationOnly, stays.continues,
    stays.isStatement_eq.trans statement, ?_⟩
  · conv_rhs => rw [← own]
    simp only [Line.readIn, text, sameUnit]
  · rw [Line.code, stays.continues]
    unfold Line.code Line.readIn
    rw [text]
  · simp [Line.readIn, neutral, text]

/-- At the margin, where nothing waits for a body, nothing is around a statement. -/
theorem around_eq_nil_of_margin
    {again : Border}
    (sound : again.Sound)
    {read : Line}
    (atMargin : read.depth = 0)
    (begun : snapsToClass read = false → again.context.previousOpens = false) :
    around again.frames read = [] := by
  unfold around
  rw [atMargin]
  cases snaps : snapsToClass read with
  | true =>
      rw [if_pos rfl, enterDeclaration_zero]
  | false =>
      have waiting := sound.awaits.trans (begun snaps)
      rw [if_neg Bool.false_ne_true, enterStatement_of_not_awaitsBody waiting,
        ← List.length_eq_zero_iff,
        sound.inPlace.length_closeDeeper (sound.begun.forall_begun waiting), Nat.zero_min]

/-- The next statement is classified in the context of the statement above it. -/
theorem Standing.classify_of_find?
    {border : Border}
    {lines : List Line}
    (standing : Standing border lines)
    (sound : border.Sound)
    {next : Line}
    (isNext : next ∈ lines.find? (·.isStatement)) :
    classify border.context next.text = (next.category, next.annotationOnly) := by
  induction lines generalizing border with
  | nil =>
      cases isNext
  | cons line rest inductionHypothesis =>
      cases statement : line.isStatement with
      | true =>
          rw [List.find?_cons_of_pos statement] at isNext
          obtain rfl := Option.some.inj isNext
          exact Line.classify_of_isStatement standing.own statement
      | false =>
          rw [List.find?_cons_of_neg (by simp [statement])] at isNext
          obtain ⟨standingBelow, soundBelow⟩ := standing.below sound
          rw [← (border.below_of_not_isStatement statement).1]
          exact inductionHypothesis standingBelow soundBelow isNext

/-- What is kept at the margin, and nothing that the classifier knows, is an inner class. -/
theorem Standing.isInnerClassHeader_of_margin
    {border : Border}
    {line : Line}
    {rest : List Line}
    (standing : Standing border (line :: rest))
    (sound : border.Sound)
    (statement : line.isStatement = true)
    (housed : line.leadsIn = false)
    (noneAround : around border.frames line = [])
    (isOther : line.category = .other)
    (unannotated : line.annotationOnly = false) :
    isInnerClassHeader line.code = true := by
  have atFile : line.scope = .file := by
    rw [(standing.stands sound statement).scope, noneAround]
    rfl
  have starts := Line.continues_of_isStatement statement
  simpa [Line.leadsIn, starts, unannotated, atFile, isOther] using housed

namespace Reread

variable
  {border again : Border}
  {line read : Line}
  {rest : List Line}

/-- Below kept statements, between the same blocks, the borders are abreast. -/
theorem abreast
    (reread : Reread again.context line read)
    (statement : line.isStatement = true)
    (sameAround : around again.frames read = around border.frames line)
    (kind : frameKindOf read = frameKindOf line)
    {next : Option Line}
    (reads : ∀ other ∈ next,
      classify (again.below read).context other.text =
        classify (border.below line).context other.text) :
    Abreast next (border.below line) (again.below read) := by
  refine .alike ?_ ?_ reads
  · rw [again.frames_below_of_isStatement reread.statement,
      border.frames_below_of_isStatement statement, inside, inside, reread.opens, kind,
      reread.depth, sameAround]
  · rw [Border.below, Border.below, Context.below, Context.below, if_pos statement,
      if_pos reread.statement]
    exact reread.opens

/-- The context below a kept statement. -/
theorem context_below
    (reread : Reread again.context line read)
    (sameUnit : again.context.unit = border.context.unit)
    (statement : line.isStatement = true) :
    (again.below read).context =
      { (border.below line).context with previous := read.category } := by
  rw [Border.below, Border.below, Context.below, Context.below, if_pos statement,
    if_pos reread.statement, reread.opens, reread.annotationOnly, sameUnit]

/-- A kept statement that is read alike is stranded no more than before. -/
theorem leadsIn_eq
    {context : Context}
    (reread : Reread context line read)
    (category : read.category = line.category) :
    Line.leadsIn { read with scope := line.scope } = line.leadsIn := by
  have code : Line.code { read with scope := line.scope } = line.code := reread.code
  unfold Line.leadsIn
  rw [code]
  dsimp only
  rw [category, reread.continues, reread.annotationOnly]

section

variable
  (reread : Reread again.context line read)
  (standing : Standing border (line :: rest))
  (sound : border.Sound)
  (sameUnit : again.context.unit = border.context.unit)
  (statement : line.isStatement = true)

include reread standing sound sameUnit statement

/-- A kept statement that lands between the same blocks stays where it is. -/
theorem remains
    (sameAround : around again.frames read = around border.frames line)
    (housed : Line.leadsIn { read with scope := line.scope } = false) :
    Remains again read := by
  have stands := standing.stands sound statement
  have depth : read.depth = (around again.frames read).length := by
    rw [reread.depth, stands.depth, sameAround]
  have text : again.context.unit.reindent read.text read.depth = read.text := by
    rw [sameUnit, reread.text, reread.depth, stands.text]
  have target : bodyDepthOf (around again.frames read) = read.depth := by
    rw [sameAround, (sound.inPlace.nested.around line).bodyDepthOf_eq, ← stands.depth, reread.depth]
  refine ⟨depth, text, ?_⟩
  have inPlace : placed again.context.unit again.frames read = { read with scope := line.scope } := by
    rw [placed, target, text, sameAround, stands.scope]
  rw [inPlace]
  exact housed

/-- A kept statement that is read alike, between the same blocks, leaves the borders abreast. -/
theorem of_same
    (housed : line.leadsIn = false)
    (sameAround : around again.frames read = around border.frames line)
    (category : read.category = line.category)
    (next : Option Line) :
    Remains again read ∧ Abreast next (border.below line) (again.below read) := by
  refine ⟨?_, ?_⟩
  · refine reread.remains standing sound sameUnit statement sameAround ?_
    rw [reread.leadsIn_eq category]
    exact housed
  · refine reread.abreast statement sameAround (frameKindOf_congr category reread.code) ?_
    intro other _
    have sameContext : (again.below read).context = (border.below line).context := by
      rw [reread.context_below sameUnit statement, category, Border.below, Context.below,
        if_pos statement]
    rw [sameContext]

/-- A kept statement that is read alike stands in the same blocks where they are open. -/
theorem of_alike
    (housed : line.leadsIn = false)
    (frames : again.frames = border.frames)
    (reads : classify again.context line.text = classify border.context line.text)
    (next : Option Line) :
    Remains again read ∧ Abreast next (border.below line) (again.below read) := by
  have category : read.category = line.category := by
    rw [reread.category, reads, Line.classify_of_isStatement standing.own statement]
  refine reread.of_same standing sound sameUnit statement housed ?_ category next
  unfold around
  rw [snapsToClass_congr category reread.code, reread.depth, frames]

/-- A kept statement at the margin that a pending annotation makes another field stays a field. -/
theorem of_fields
    (sameAround : around again.frames read = around border.frames line)
    (field : line.category.isField = true)
    (fieldAgain : read.category.isField = true)
    (unannotated : line.annotationOnly = false)
    (next : Option Line) :
    Remains again read ∧ Abreast next (border.below line) (again.below read) := by
  have noMethod (category : Category) (isField : category.isField = true) :
      category.isMethod = false := by
    cases category <;> first | rfl | cases isField
  refine ⟨?_, ?_⟩
  · refine reread.remains standing sound sameUnit statement sameAround ?_
    rw [Bool.eq_false_iff]
    intro leads
    have plain := Line.snapsToClass_of_leadsIn leads
    simp [snapsToClass, Category.isClassLevel_of_isField fieldAgain] at plain
  · have kind : frameKindOf read = frameKindOf line := by
      unfold frameKindOf
      rw [reread.code, noMethod _ field, noMethod _ fieldAgain]
    refine reread.abreast statement sameAround kind ?_
    intro other _
    have below : (border.below line).context.previous = line.category ∧
        (border.below line).context.previousAnnotationOnly = false := by
      rw [Border.below, Context.below, if_pos statement]
      exact ⟨rfl, unannotated⟩
    rw [reread.context_below sameUnit statement]
    generalize (border.below line).context = context at below ⊢
    have alike : context.Alike { context with previous := read.category } :=
      ⟨rfl, rfl, by simp [Context.pendingKind, below.2]⟩
    refine classify_eq_of_alike alike ?_ other.text
    simp [Context.atClassLevel, below.1, Category.isClassLevel_of_isField field,
      Category.isClassLevel_of_isField fieldAgain]

/-- What stands at the margin below kept annotations is read in a place of its own again. -/
theorem of_annotations
    (noneAround : around border.frames line = [])
    (noneAroundAgain : around again.frames read = [])
    (annotationOnly : line.annotationOnly = true)
    (annotated : (classify again.context line.text).2 = true)
    (staysFlat : ∀ next ∈ rest.find? (·.isStatement), line.StaysFlat next) :
    Remains again read ∧
      Abreast (rest.find? (·.isStatement)) (border.below line) (again.below read) := by
  have sameAround := noneAroundAgain.trans noneAround.symm
  refine ⟨?_, ?_⟩
  · refine reread.remains standing sound sameUnit statement sameAround ?_
    have noLead : read.annotationOnly = true := reread.annotationOnly.trans annotationOnly
    simp [Line.leadsIn, noLead]
  · have opensBelow : (border.below line).context.previousOpens = line.opens := by
      rw [Border.below, Context.below, if_pos statement]
    have contextAgain := reread.context_below sameUnit statement
    have opensAgain : (again.below read).context.previousOpens = line.opens := by
      rw [contextAgain]
      exact opensBelow
    cases opens : line.opens with
    | false =>
        refine .margin ?_ (.inr (opensAgain.trans opens))
        intro next _
        rw [border.frames_below_of_isStatement statement, inside, opens,
          if_neg Bool.false_ne_true, noneAround]
        unfold around
        split <;> rfl
    | true =>
        obtain ⟨standingBelow, soundBelow⟩ := standing.below sound
        have atFile : line.scope = .file := by
          rw [(standing.stands sound statement).scope, noneAround]
          rfl
        refine reread.abreast statement sameAround ?_ ?_
        · have classified := Line.classify_of_isStatement standing.own statement
          have noMethod : line.category.isMethod = false := by
            have found := isMethod_classify_of_annotationOnly
              ((congrArg Prod.snd classified).trans annotationOnly)
            rwa [classified] at found
          have noMethodAgain : read.category.isMethod = false := by
            rw [reread.category]
            exact isMethod_classify_of_annotationOnly annotated
          unfold frameKindOf
          rw [reread.code, noMethod, noMethodAgain]
        · intro next isNext
          have classified := standingBelow.classify_of_find? soundBelow isNext
          have bare : next.annotationOnly = false := by
            rw [Bool.eq_false_iff]
            intro nextAnnotated
            exact staysFlat next isNext ⟨annotationOnly, atFile, opens, nextAnnotated⟩
          refine classify_eq_of_opens ?_ (opensBelow.trans opens) (opensAgain.trans opens) ?_
          · rw [contextAgain]
          · rw [classified]
            exact bare

/-- A kept statement around which nothing is open stays, whatever is pending above it. -/
theorem of_margin
    (soundAgain : again.Sound)
    (housed : line.leadsIn = false)
    (noneAround : around border.frames line = [])
    (pending : border.context.Alike again.context ∨ again.context.previousOpens = false)
    (staysFlat : ∀ next ∈ rest.find? (·.isStatement), line.StaysFlat next) :
    Remains again read ∧
      Abreast (rest.find? (·.isStatement)) (border.below line) (again.below read) := by
  have own := standing.own
  have classified := Line.classify_of_isStatement own statement
  have atMargin : line.depth = 0 := by
    rw [(standing.stands sound statement).depth, noneAround]
    rfl
  have readDepth : read.depth = 0 := reread.depth.trans atMargin
  have depth : border.context.unit.depth line.text = 0 := by
    rw [← atMargin]
    conv_rhs => rw [← own]
    rfl
  rcases pending with alike | opensNothing
  · have reads := classify_congr alike (.inr (.inr depth))
    have category : read.category = line.category := by
      rw [reread.category, reads, classified]
    have noneAgain : around again.frames read = [] := by
      refine around_eq_nil_of_margin soundAgain readDepth fun plain => ?_
      rw [snapsToClass_congr category reread.code] at plain
      rw [← alike.opens, ← sound.awaits]
      exact awaitsBody_of_around_eq_nil plain noneAround
    exact reread.of_same standing sound sameUnit statement housed (noneAgain.trans noneAround.symm)
      category _
  · have noneAgain := around_eq_nil_of_margin soundAgain readDepth fun _ => opensNothing
    have sameAround := noneAgain.trans noneAround.symm
    have ofSame (reads : classify again.context line.text = classify border.context line.text) :=
      reread.of_same standing sound sameUnit statement housed sameAround
        (by rw [reread.category, reads, classified]) (rest.find? (·.isStatement))
    rcases marginKin_of_opensNothing sameUnit opensNothing depth with kin | ⟨_, isOther⟩
    · generalize foundAgain : classify again.context line.text = again' at kin ofSame
      rw [classified] at kin ofSame
      have category := reread.category
      rw [foundAgain] at category
      generalize found : (line.category, line.annotationOnly) = before at kin ofSame
      cases kin with
      | same =>
          exact ofSame rfl
      | fields field fieldAgain =>
          obtain ⟨rfl, unannotated⟩ := Prod.mk.inj found
          exact reread.of_fields standing sound sameUnit statement sameAround field
            (category ▸ fieldAgain) unannotated _
      | annotations =>
          exact reread.of_annotations standing sound sameUnit statement noneAround noneAgain
            (Prod.mk.inj found).2 (by rw [foundAgain]) staysFlat
    · rw [classified, Prod.mk.injEq] at isOther
      have isHeader := standing.isInnerClassHeader_of_margin sound statement housed noneAround
        isOther.1 isOther.2
      refine ofSame (classify_eq_of_isInnerClassHeader _ _ ?_)
      have starts := Line.continues_of_isStatement statement
      rwa [Line.code, starts, if_neg Bool.false_ne_true] at isHeader

end

end Reread

/-- A kept line stays, and the borders below it are abreast again. -/
theorem Abreast.below_kept
    {border again : Border}
    {line out : Line}
    {rest : List Line}
    (standing : Standing border (line :: rest))
    (sound : border.Sound)
    (soundAgain : again.Sound)
    (sameUnit : again.context.unit = border.context.unit)
    (abreast : Abreast ((line :: rest).find? (·.isStatement)) border again)
    (flat : AnnotationsStayFlat (line :: rest))
    (housed : line.leadsIn = false)
    (text : out.text = line.text) :
    let read := out.readIn border.carry again.context (leadsBlock border.carry (line :: rest))
    (read.isStatement = true → Remains again read) ∧
      Abreast (rest.find? (·.isStatement)) (border.below line) (again.below read) := by
  intro read
  have own := standing.own
  cases statement : line.isStatement with
  | true =>
      have isNext : (line :: rest).find? (·.isStatement) = some line :=
        List.find?_cons_of_pos statement
      have reread : Reread again.context line read :=
        reread_of_kept standing statement text sameUnit
      rw [isNext] at abreast
      have both : Remains again read ∧
          Abreast (rest.find? (·.isStatement)) (border.below line) (again.below read) := by
        cases abreast with
        | alike frames _ reads =>
            exact reread.of_alike standing sound sameUnit statement housed frames
              (reads line rfl) _
        | margin outside pending =>
            exact reread.of_margin standing sound sameUnit statement soundAgain housed
              (outside line rfl) pending (flat.of_cons statement)
      exact ⟨fun _ => both.1, both.2⟩
  | false =>
      have same : line.text.SameCode out.text := by
        rw [text]
        exact .refl _
      have stays : (line.readIn border.carry border.context
          (leadsBlock border.carry (line :: rest))).Stays read :=
        Line.readIn_moved border.context again.context _ same
      rw [own] at stays
      have noStatement : read.isStatement = false := stays.isStatement_eq.trans statement
      refine ⟨fun isStatement => ?_, ?_⟩
      · exact absurd (noStatement.symm.trans isStatement) Bool.false_ne_true
      obtain ⟨sameContext, sameFrames⟩ := border.below_of_not_isStatement statement
      obtain ⟨sameContextAgain, sameFramesAgain⟩ := again.below_of_not_isStatement noStatement
      rw [List.find?_cons_of_neg (by simp [statement])] at abreast
      cases abreast with
      | alike frames opens reads =>
          refine .alike ?_ ?_ ?_
          · rw [sameFramesAgain, frames, sameFrames]
          · rw [sameContextAgain, opens, sameContext]
          · rw [sameContextAgain, sameContext]
            exact reads
      | margin outside pending =>
          refine .margin ?_ ?_
          · rw [sameFrames]
            exact outside
          · rw [sameContextAgain, sameContext]
            exact pending

@[simp] theorem Border.unit_belowAll
    (border : Border)
    (lines : List Line) :
    (border.belowAll lines).context.unit = border.context.unit := by
  induction lines generalizing border with
  | nil =>
      rfl
  | cons line rest inductionHypothesis =>
      exact (inductionHypothesis _).trans (border.unit_below line)

/-- Around the next statement below a run nothing is open. -/
theorem Standing.outside_of_isRun
    {border : Border}
    {lead : Line}
    {members below : List Line}
    (standing : Standing border (lead :: members ++ below))
    (sound : border.Sound)
    (isRun : IsRun lead members below) :
    ∀ next ∈ below.find? (·.isStatement),
      around (border.belowAll (lead :: members)).frames next = [] := by
  intro next isNext
  obtain ⟨standingBelow, soundBelow⟩ := standing.belowAll sound
  have control := standing.allControl_of_leadsIn sound isRun.leads
  obtain ⟨standingMembers, soundMembers⟩ := Standing.below standing sound
  have controlBelow := standingMembers.allControl_belowAll soundMembers control isRun.takenIn
  exact standingBelow.around_eq_nil_of_find? soundBelow controlBelow isNext
    (isRun.apart next isNext)

/-- At the end of a run no statement goes on, unless the file ends there. -/
theorem Standing.closed_of_isRun
    {border : Border}
    {lead : Line}
    {members below : List Line}
    (standing : Standing border (lead :: members ++ below))
    (sound : border.Sound)
    (isRun : IsRun lead members below) :
    (border.belowAll (lead :: members)).carry = .neutral ∨ below = [] := by
  cases below with
  | nil =>
      exact .inr rfl
  | cons first rest =>
      have own := (standing.belowAll sound).1.own
      have starts := isRun.closed first rfl
      rw [← own] at starts
      exact .inl (by simpa [Line.readIn, Carry.isNeutral_iff] using starts)

theorem eq_nil_of_resolves
    {unit : IndentUnit}
    {others : List Line}
    (resolves : Orphan.Resolves unit [] others) :
    others = [] := by
  cases resolves
  rfl

/-- Read and repaired again, what orphan repair leaves stays where it is. -/
theorem settles_of_resolves
    {unit : IndentUnit}
    {lines others : List Line}
    (resolves : Orphan.Resolves unit lines others)
    {border again : Border}
    (standing : Standing border lines)
    (sound : border.Sound)
    (soundAgain : again.Sound)
    (isUnit : border.context.unit = unit)
    (sameUnit : again.context.unit = unit)
    (carry : again.carry = border.carry ∨ lines = [])
    (abreast : Abreast (lines.find? (·.isStatement)) border again)
    (flat : AnnotationsStayFlat lines) :
    Settles again others := by
  induction resolves generalizing border again with
  | nil =>
      exact .nil again
  | @kept line out rest others housed text resolved inductionHypothesis =>
      have sameCarry := carry.resolve_right (List.cons_ne_nil _ _)
      have sameOpens : leadsBlock again.carry (out :: others) =
          leadsBlock border.carry (line :: rest) := by
        rw [sameCarry]
        exact resolved.leadsBlock_cons_eq text standing.known
      obtain ⟨remains, abreastBelow⟩ := abreast.below_kept standing sound soundAgain
        (sameUnit.trans isUnit.symm) flat housed text
      rw [← sameOpens, ← sameCarry] at remains abreastBelow
      obtain ⟨standingBelow, soundBelow⟩ := standing.below sound
      have flatBelow : AnnotationsStayFlat ([line] ++ rest) := flat
      refine .cons soundAgain rfl remains ?_
      refine inductionHypothesis standingBelow soundBelow
        (soundAgain.below fun statement => (remains statement).depth)
        ((border.unit_below line).trans isUnit) ((again.unit_below _).trans sameUnit)
        (.inl ?_) abreastBelow flatBelow.of_append
      rw [Border.below, Border.below, sameCarry, Line.readIn, text]
  | @wrapped lead header members below moved others name isRun named isHeader texts resolved
      inductionHypothesis =>
      have sameCarry := carry.resolve_right (by simp)
      have neutral := standing.carry_of_isStatement (Line.isStatement_of_leadsIn isRun.leads)
      obtain ⟨standingBelow, soundBelow⟩ := standing.belowAll sound
      have closed : (border.belowAll (lead :: members)).carry = .neutral ∨
          below = [] ∧ others = [] :=
        (standing.closed_of_isRun sound isRun).imp_right fun nothing =>
          ⟨nothing, eq_nil_of_resolves (nothing ▸ resolved)⟩
      subst isUnit
      refine settles_wrapper sound soundAgain sameUnit (sameCarry.trans neutral) standing isRun
        named isHeader texts closed fun inner wrapped => ?_
      refine inductionHypothesis standingBelow soundBelow wrapped.sound
        (border.unit_belowAll _) ?_ (.inl wrapped.carry) (.margin ?_ (.inl ?_)) flat.of_append
      · rw [wrapped.context, border.unit_belowAll]
      · exact standing.outside_of_isRun sound isRun
      · rw [wrapped.context]
        exact ⟨rfl, rfl, rfl⟩
  | @suppressed lead members below hidden others isRun noCode resolved inductionHypothesis =>
      have sameCarry := carry.resolve_right (by simp)
      have neutral := standing.carry_of_isStatement (Line.isStatement_of_leadsIn isRun.leads)
      have opensNothing : again.context.previousOpens = false := by
        have above := (standing.margin_of_leadsIn sound isRun.leads).2.2
        cases abreast with
        | alike _ opens _ =>
            exact opens.trans above
        | margin _ pending =>
            exact pending.elim (fun alike => alike.opens.symm.trans above) id
      obtain ⟨standingBelow, soundBelow⟩ := standing.belowAll sound
      refine .append_of_hasNoCode soundAgain (sameCarry.trans neutral) noCode ?_
      refine inductionHypothesis standingBelow soundBelow soundAgain
        ((border.unit_belowAll _).trans isUnit) sameUnit ?_
        (.margin (standing.outside_of_isRun sound isRun) (.inr opensNothing)) flat.of_append
      refine (standing.closed_of_isRun sound isRun).imp_left fun closed => ?_
      rw [sameCarry, neutral, closed]

end Indent

namespace Source

/-- After orphan repair every line of a repaired file stands in its place, and no statement is stranded. -/
theorem Consistent.placedLines_orphanStage
    {source : Source}
    (consistent : source.Consistent)
    (standing : Indent.Standing (.top source.unit) source.lines)
    {wrapperName : String}
    (named : isIdentifier (Orphan.baseName wrapperName) = true)
    (flat : AnnotationsStayFlat source.lines) :
    let after := source.orphanStage wrapperName
    after.placedLines.map (·.text) = after.texts ∧
      ∀ line ∈ after.placedLines, line.leadsIn = false := by
  intro after
  cases runs : (Orphan.verdictsOf wrapperName source.lines).any (·.isRun) with
  | false =>
      have kept : source.KeptByOrphanStage after := orphanStage_of_no_run runs
      have inPlace : after.placedLines = source.lines := by
        rw [placedLines, kept.lines, kept.unit]
        exact standing.placed
      rw [Orphan.any_isRun_verdictsOf] at runs
      rw [inPlace, texts, kept.lines]
      exact ⟨rfl, by simpa using runs⟩
  | true =>
      have resolved : source.ResolvedByOrphanStage wrapperName after :=
        orphanStage_of_run consistent.settled runs
      have sound := Indent.Border.sound_top source.unit
      obtain ⟨sameTexts, housed⟩ := Indent.settles_of_resolves
        (Orphan.resolves_resolvedLines named source.unit source.lines) standing sound sound rfl rfl
        (.inl rfl) (.alike rfl rfl fun _ _ => rfl) flat
      have left : after.texts =
          (Orphan.resolvedLines wrapperName source.unit source.lines).map (·.text) := by
        rw [texts, resolved.lines]
        exact refreshLines_texts _ _
      rw [placedLines, resolved.unit, resolved.lines, left]
      exact ⟨sameTexts, housed⟩

/-- Where no line leads into a run there is none. -/
theorem orphanRuns_eq_nil
    {source : Source}
    (housed : ∀ line ∈ source.lines, line.leadsIn = false) :
    orphanRuns source = [] := by
  have noRun : (Segment.cut 0 (source.lines.map ({ line := · }))).any (·.isRun) = false := by
    rw [Segment.any_isRun_cut, List.any_map, List.any_eq_false]
    intro line member leads
    exact absurd ((housed line member).symm.trans leads) Bool.false_ne_true
  rw [List.any_eq_false] at noRun
  rw [orphanRuns, List.filter_eq_nil_iff.mpr noRun, List.map_nil]

/--
Orphan repair is stable: when indentation repair and orphan repair are applied
to a classified, uplifted and repaired file once more, no line changes its text,
nothing is counted, and the file has no run before and after.  The wrappers are
to be named by a word, and no annotations may open a block at file scope that
begins with annotations.
-/
theorem repeated_orphan_repair_is_idle
    (style : IndentUnit.Style)
    (width : Int)
    (disabled : List String)
    (path : String)
    (content : Text)
    {wrapperName : String}
    (named : isIdentifier (Orphan.baseName wrapperName) = true) :
    let before := (((ofContent path content).classifyStage style width).upliftStage
      (UpliftRule.enabled disabled)).indentStage
    AnnotationsStayFlat before.lines →
      let after := before.orphanStage wrapperName
      let again := after.indentStage
      let last := again.orphanStage wrapperName
      (again.texts = after.texts ∧ last.texts = after.texts) ∧
        (∀ counter, again.counted counter = after.counted counter ∧
          last.counted counter = after.counted counter) ∧
        orphanRuns again = [] ∧ orphanRuns last = [] := by
  intro before flat after again last
  have classified := classifyStage_consistent style width (ofContent path content)
  have uplifted := classified.upliftStage (UpliftRule.enabled disabled)
  have repaired : before.Consistent := uplifted.indentStage
  obtain ⟨inPlace, housed⟩ :=
    repaired.placedLines_orphanStage uplifted.standing_indentStage named flat
  have sameLines : again.lines = after.placedLines := indentStage_lines_of_placed inPlace
  have housedAgain : ∀ line ∈ again.lines, line.leadsIn = false := by
    rw [sameLines]
    exact housed
  have lastLines : last.lines = again.lines := orphanStage_lines_of_housed housedAgain wrapperName
  have quietAgain : Quiet after again := (indentStage_idle after).2.mpr inPlace
  have consistent : again.Consistent := (repaired.orphanStage wrapperName).indentStage
  have quietLast : Quiet again last := (consistent.orphanStage_idle wrapperName).2.mpr housedAgain
  have sameTexts : again.texts = after.texts := by
    rw [texts, sameLines]
    exact inPlace
  refine ⟨⟨sameTexts, ?_⟩, fun counter => ⟨quietAgain counter, ?_⟩,
    orphanRuns_eq_nil housedAgain, orphanRuns_eq_nil ?_⟩
  · rw [texts, lastLines]
    exact sameTexts
  · exact (quietLast counter).trans (quietAgain counter)
  · rw [lastLines]
    exact housedAgain

/-- A run commented out below an annotation, and one wrapped below a variable, stay as they are left. -/
theorem suppressed_and_wrapped_runs_stay :
    let before := (((ofContent "x.gd" "@export\nfoo()\nvar id = 0\nx = id\n".toList).classifyStage
      .detected 4).upliftStage (UpliftRule.enabled [])).indentStage
    let after := before.orphanStage ""
    let again := after.indentStage
    let last := again.orphanStage ""
    AnnotationsStayFlat before.lines ∧
      after.texts = ["@export", "# orphaned: foo()", "var id = 0", "func _migrated_init():",
        "\tx = id"].map String.toList ∧
      (again.texts = after.texts ∧ last.texts = after.texts) ∧
        (∀ counter, again.counted counter = after.counted counter ∧
          last.counted counter = after.counted counter) ∧
        orphanRuns again = [] ∧ orphanRuns last = [] := by
  have flat : AnnotationsStayFlat
      (((ofContent "x.gd" "@export\nfoo()\nvar id = 0\nx = id\n".toList).classifyStage
        .detected 4).upliftStage (UpliftRule.enabled [])).indentStage.lines := by
    decide +kernel
  refine ⟨flat, by decide +kernel, ?_⟩
  exact repeated_orphan_repair_is_idle .detected 4 [] "x.gd" _ (by decide) flat

/--
Below a run that was commented out the annotation above it is pending.  Here
`@note` is taken for the annotation of an exported field and moved out of the
block that `@tag` opens, and the statement below it is stranded.
-/
theorem suppressed_run_strands_annotated_block :
    let before := (((ofContent "x.gd" "@export\nfoo()\n@tag(\n):\n\t@note\n\tbar()\n".toList
      ).classifyStage .detected 4).upliftStage (UpliftRule.enabled [])).indentStage
    let after := before.orphanStage ""
    let again := after.indentStage
    after.texts = ["@export", "# orphaned: foo()", "@tag(", "):", "\t@note", "\tbar()"].map
        String.toList ∧
      again.texts = ["@export", "# orphaned: foo()", "@tag(", "):", "@note", "bar()"].map
        String.toList ∧
      (orphanRuns again).length = 1 ∧
      (again.orphanStage "").counted Orphan.suppressCounter =
        after.counted Orphan.suppressCounter + 1 := by
  refine ⟨?_, ?_, ?_, ?_⟩ <;> decide +kernel

end Source

end ScriptUplift
