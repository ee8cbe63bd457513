import Mathlib.Tactic.Common
import ScriptUplift.Proofs.StrandedDeclarations

namespace ScriptUplift

/-!
# Lines read in other places

A line is read by its code and by four things about its place: the indentation
unit, whether it is a local, whether the statement above it opens a block, and
which annotation is pending above it.  Here a line is read in two places that
differ in some of these.  What is plain at the margin is plain everywhere, what
stands right below a header is read alike below every other one, and at the
margin a pending annotation tells fields from each other and nothing else.
-/

namespace Category

theorem ite_rel
    {relation : Category → Category → Prop}
    {condition : Prop}
    [Decidable condition]
    {first second firstAgain secondAgain : Category}
    (ofFirst : relation first firstAgain)
    (ofSecond : relation second secondAgain) :
    relation (if condition then first else second)
      (if condition then firstAgain else secondAgain) := by
  split <;> assumption

/-- A keyword is read in two places as related as constants and fields are. -/
theorem ofKeywordWithin_rel
    (relation : Category → Category → Prop)
    (first second : Context)
    (depth depthAgain : Nat)
    (kind kindAgain : AnnotationKind)
    (refl : ∀ category, relation category category)
    (constants :
      relation (if first.isLocal depth then .other else .constant)
        (if second.isLocal depthAgain then .other else .constant))
    (fields : ∀ after,
      relation (ofField first depth kind after) (ofField second depthAgain kindAgain after))
    (limit : Nat)
    (code : Text) :
    relation (ofKeywordWithin first depth kind limit code)
      (ofKeywordWithin second depthAgain kindAgain limit code) := by
  unfold Context.isLocal at constants
  induction limit generalizing code with
  | zero =>
      exact refl _
  | succ limit inductionHypothesis =>
      unfold ofKeywordWithin
      dsimp only
      repeat'
        first
        | exact refl _
        | exact constants
        | exact fields _
        | exact inductionHypothesis _
        | apply ite_rel

end Category

/-- How one code is classified in two places: as trivia, by its annotations, or by a keyword. -/
inductive ClassifiedTwice
    (first second : Context)
    (depth depthAgain : Nat) :
    Category × Bool → Category × Bool → Prop
  | trivia
      {category : Category}
      (isTrivia : category.isTrivia = true) :
      ClassifiedTwice first second depth depthAgain (category, false) (category, false)
  | annotations (kind : AnnotationKind) :
      ClassifiedTwice first second depth depthAgain
        (classifyAnnotations first kind) (classifyAnnotations second kind)
  | code
      (own : Option AnnotationKind)
      (code : Text) :
      ClassifiedTwice first second depth depthAgain
        (Category.ofKeyword first depth (own.getD first.pendingKind) code, false)
        (Category.ofKeyword second depthAgain (own.getD second.pendingKind) code, false)

theorem classifiedTwice
    (first second : Context)
    {text moved : Text}
    (same : text.SameCode moved) :
    ClassifiedTwice first second (first.unit.depth text) (second.unit.depth moved)
      (classify first text) (classify second moved) := by
  have sameTrim := (Scan.moved_of_sameCode same).code.trim_eq
  unfold classify
  dsimp only
  rw [← same.isBlank_eq, ← sameTrim]
  split
  · exact .trivia rfl
  · split
    · exact .trivia rfl
    · split
      · exact .annotations _
      · cases found : (Peeled.ofCode (Scan.line none text).code.trim).found with
        | true =>
            exact .code (some _) _
        | false =>
            exact .code none _

/-- Contexts that are alike, and at class level together, read everything alike. -/
theorem classify_eq_of_alike
    {first second : Context}
    (alike : first.Alike second)
    (sameLevel : second.atClassLevel = first.atClassLevel)
    (text : Text) :
    classify second text = classify first text := by
  refine (classify_moved_of_isLocal alike (.refl text)).1 ?_
  unfold Context.isLocal
  rw [sameLevel, alike.unit]

theorem classifyAnnotations_snd
    (context : Context)
    (kind : AnnotationKind) :
    (classifyAnnotations context kind).2 = (kind != .header) := by
  unfold classifyAnnotations
  cases kind <;> dsimp only <;> (try split_ifs) <;> rfl

/-- A line of annotations only is the header of no method. -/
theorem isMethod_classify_of_annotationOnly
    {context : Context}
    {text : Text}
    (annotationOnly : (classify context text).2 = true) :
    (classify context text).1.isMethod = false := by
  have twice := classifiedTwice context context (.refl text)
  generalize classify context text = found at annotationOnly twice ⊢
  cases twice with
  | trivia isTrivia =>
      cases annotationOnly
  | annotations kind =>
      unfold classifyAnnotations
      cases kind <;> dsimp only <;> (try split_ifs) <;> rfl
  | code own code =>
      cases annotationOnly

/-- What is no declaration, though nothing makes a local of it, is read so everywhere. -/
theorem classify_eq_of_plain
    {first second : Context}
    {text moved : Text}
    (same : text.SameCode moved)
    (opensNothing : first.previousOpens = false)
    (noLocal : first.isLocal (first.unit.depth text) = false)
    (plain : (classify first text).1.isClassLevel = false)
    (unannotated : (classify first text).2 = false) :
    classify second moved = classify first text := by
  have twice := classifiedTwice first second same
  generalize classify first text = found at plain unannotated twice
  generalize classify second moved = foundAgain at twice ⊢
  cases twice with
  | trivia isTrivia =>
      rfl
  | annotations kind =>
      rw [classifyAnnotations_snd, bne_eq_false_iff_eq] at unannotated
      rw [unannotated]
      rfl
  | code own code =>
      have sameCategory := Category.ofKeywordWithin_rel
        (fun before after => before.isClassLevel = false → after = before)
        first second (first.unit.depth text) (second.unit.depth moved)
        (own.getD first.pendingKind) (own.getD second.pendingKind)
        (fun _ _ => rfl)
        (by
          rw [noLocal]
          exact fun constant => Bool.noConfusion constant)
        (fun after noField => by
          have field := Category.isField_ofField opensNothing noLocal
            (own.getD first.pendingKind) after
          rw [Category.isClassLevel_of_isField field] at noField
          cases noField)
        code.length code
      exact Prod.ext (sameCategory plain) rfl

/-- Right below a header, whatever it is, code is read alike. -/
theorem classify_eq_of_opens
    {first second : Context}
    (sameUnit : second.unit = first.unit)
    (opens : first.previousOpens = true)
    (opensAgain : second.previousOpens = true)
    {text : Text}
    (unannotated : (classify first text).2 = false) :
    classify second text = classify first text := by
  have twice := classifiedTwice first second (.refl text)
  generalize classify first text = found at unannotated twice
  generalize classify second text = foundAgain at twice ⊢
  cases twice with
  | trivia isTrivia =>
      rfl
  | annotations kind =>
      rw [classifyAnnotations_snd, bne_eq_false_iff_eq] at unannotated
      rw [unannotated]
      rfl
  | code own code =>
      have sameLocal : second.isLocal (second.unit.depth text) =
          first.isLocal (first.unit.depth text) := by
        rw [sameUnit]
        simp [Context.isLocal, Context.atClassLevel, opens, opensAgain]
      have sameCategory := Category.ofKeywordWithin_rel
        (fun before after => after = before)
        first second (first.unit.depth text) (second.unit.depth text)
        (own.getD first.pendingKind) (own.getD second.pendingKind)
        (fun _ => rfl)
        (by rw [sameLocal])
        (fun after => by
          unfold Category.ofField
          rw [if_pos opens, if_pos opensAgain])
        code.length code
      exact Prod.ext sameCategory rfl

/-- The header of an inner class is read alike everywhere. -/
theorem classify_eq_of_isInnerClassHeader
    (first second : Context)
    {text : Text}
    (isHeader : isInnerClassHeader (Scan.line none text).code.trim = true) :
    classify second text = classify first text := by
  unfold isInnerClassHeader at isHeader
  rw [Text.trim_trim, Bool.and_eq_true, decide_eq_true_iff] at isHeader
  obtain ⟨isClass, _⟩ := isHeader
  unfold classify
  dsimp only
  generalize (Scan.line none text).code.trim = code at isClass ⊢
  have bare : (Peeled.ofCode code).found = false := by
    rw [Bool.eq_false_iff]
    intro annotated
    obtain ⟨named, rfl⟩ := Peeled.exists_mark_of_found annotated
    have noWord : (firstWord ('@' :: named)).1 = [] := rfl
    rw [noWord] at isClass
    exact absurd isClass (by decide)
  have rest := Peeled.rest_of_not_found bare
  have plain : bareCode code = code := by
    have noStatic : isStatic code = false := by
      rw [isStatic, rest, isClass]
      decide
    rw [bareCode, noStatic, if_neg Bool.false_ne_true, rest]
  have declares : isDeclaration code = true := by
    rw [isDeclaration, plain]
    unfold beginsDeclaration
    dsimp only
    rw [isClass]
    rfl
  have isOther (context : Context) (depth : Nat) (kind : AnnotationKind) :
      Category.ofKeyword context depth kind code = .other := by
    have byKeyword := Category.ofKeyword_of_isDeclaration context depth kind declares
    dsimp only at byKeyword
    rwa [plain, rest, if_pos isClass] at byKeyword
  simp only [bare, Bool.false_and, Bool.false_eq_true, if_false, rest, isOther]

/-- What a line at the margin is taken for under one pending annotation and under another one. -/
inductive MarginKin : Category × Bool → Category × Bool → Prop
  | same (found : Category × Bool) :
      MarginKin found found
  | fields
      {category again : Category}
      (field : category.isField = true)
      (fieldAgain : again.isField = true) :
      MarginKin (category, false) (again, false)
  | annotations (category again : Category) :
      MarginKin (category, true) (again, true)

/-- At the margin a pending annotation tells fields, and annotations, from each other. -/
theorem marginKin_of_opensNothing
    {first second : Context}
    (sameUnit : second.unit = first.unit)
    (opensNothing : second.previousOpens = false)
    {text : Text}
    (atMargin : first.unit.depth text = 0) :
    MarginKin (classify first text) (classify second text) ∨
      first.previousOpens = true ∧ classify first text = (.other, false) := by
  have twice := classifiedTwice first second (.refl text)
  rw [sameUnit, atMargin] at twice
  generalize classify first text = found at twice ⊢
  generalize classify second text = foundAgain at twice ⊢
  cases twice with
  | trivia isTrivia =>
      exact .inl (.same _)
  | annotations kind =>
      refine .inl ?_
      cases header : kind != .header with
      | false =>
          rw [bne_eq_false_iff_eq] at header
          rw [header]
          exact .same _
      | true =>
          have shape (context : Context) :
              classifyAnnotations context kind = ((classifyAnnotations context kind).1, true) :=
            Prod.ext rfl ((classifyAnnotations_snd context kind).trans header)
          rw [shape first, shape second]
          exact .annotations _ _
  | code own code =>
      have related := Category.ofKeywordWithin_rel
        (fun before after =>
          MarginKin (before, false) (after, false) ∨ first.previousOpens = true ∧ before = .other)
        first second 0 0
        (own.getD first.pendingKind) (own.getD second.pendingKind)
        (fun _ => .inl (.same _))
        (.inl (.same _))
        (fun after => by
          cases opens : first.previousOpens with
          | true =>
              refine .inr ⟨rfl, ?_⟩
              unfold Category.ofField
              exact if_pos opens
          | false =>
              exact .inl (.fields (Category.isField_ofField opens rfl _ after)
                (Category.isField_ofField opensNothing rfl _ after)))
        code.length code
      exact related.imp id fun other => ⟨other.1, Prod.ext other.2 rfl⟩

end ScriptUplift
