import Mathlib.Tactic.Common
import ScriptUplift.Proofs.Locals
import ScriptUplift.Proofs.StandingLines

namespace ScriptUplift

/-!
# Declarations at file scope

A declaration belongs at class scope, and the classifier knows it by its keyword
wherever nothing is open above it.  The one declaration without a category of
its own is that of an inner class.  Its header is recognised by its text, and
only when the first line begins with the keyword and ends in a colon.  What the
text does not tell is taken for a stranded statement.
-/

/-- The words that begin a declaration other than that of a method. -/
def declarationWords : List Text :=
  ["var", "const", "signal", "enum", "class", "class_name", "extends"].map String.toList

/-- Whether code is static, whatever annotations stand in front. -/
def isStatic
    (code : Text) :
    Bool :=
  (firstWord (Peeled.ofCode code).rest).1 == "static".toList

/-- Code without the annotations and the word `static` in front of it. -/
def bareCode
    (code : Text) :
    Text :=
  let peeled := (Peeled.ofCode code).rest
  if isStatic code then (firstWord peeled).2.trim else peeled

/-- Whether code begins with the keyword of a declaration, or names a method. -/
def beginsDeclaration
    (code : Text) :
    Bool :=
  let (word, after) := firstWord code
  declarationWords.contains word || word == "func".toList && (firstWord after).1 != []

/-- Whether code is a declaration, whatever annotations stand in front and static or not. -/
def isDeclaration
    (code : Text) :
    Bool :=
  beginsDeclaration (bareCode code)

/--
Whether code declares an inner class that is not recognised by its text: it is
annotated or static, or its first line does not end in a colon.
-/
def isOverlookedClass
    (code : Text) :
    Bool :=
  (firstWord (bareCode code)).1 == "class".toList &&
    ((Peeled.ofCode code).found || isStatic code || !opensBlock code)

namespace Category

/-- Where no block is opened right above it, a field that is no local is a member. -/
theorem isField_ofField
    {context : Context}
    {depth : Nat}
    (opensNothing : context.previousOpens = false)
    (noLocal : context.isLocal depth = false)
    (kind : AnnotationKind)
    (after : Text) :
    (ofField context depth kind after).isField = true := by
  unfold Context.isLocal at noLocal
  unfold ofField
  rw [opensNothing, if_neg Bool.false_ne_true, noLocal, Bool.false_and, if_neg Bool.false_ne_true]
  cases kind with
  | exported | onready =>
      rfl
  | absent | plain | header =>
      dsimp only
      split <;> rfl

theorem isClassLevel_of_isField
    {category : Category}
    (field : category.isField = true) :
    category.isClassLevel = true := by
  cases category <;> first | rfl | cases field

/-- A method header with a name is known as one. -/
theorem isMethod_ofMethod
    {after : Text}
    (named : (firstWord after).1 ≠ []) :
    (ofMethod after).isMethod = true := by
  unfold ofMethod
  rw [if_neg named]
  split_ifs <;> rfl

/--
The keyword of a declaration at the margin, with nothing open above it, tells
its category; the keyword of an inner class tells none anywhere.
-/
theorem ofKeywordWithin_of_beginsDeclaration
    (context : Context)
    (depth : Nat)
    (kind : AnnotationKind)
    (limit : Nat)
    {code : Text}
    (declares : beginsDeclaration code = true) :
    let category := ofKeywordWithin context depth kind (limit + 1) code
    if (firstWord code).1 = "class".toList then category = .other
    else depth = 0 → context.previousOpens = false →
      category.isClassLevel = true ∨ category.isMethod = true := by
  simp only [beginsDeclaration, Bool.or_eq_true, Bool.and_eq_true, beq_iff_eq, bne_iff_ne,
    declarationWords, List.map_cons, List.map_nil, List.contains_cons, List.contains_nil,
    Bool.or_false] at declares
  dsimp only
  rw [ofKeywordWithin]
  dsimp only
  rcases declares with (isVar | isConst | isSignal | isEnum | isClass | isName | isBase) |
    ⟨isFunc, named⟩
  · rw [isVar]
    rintro rfl opensNothing
    exact .inl (isClassLevel_of_isField (isField_ofField opensNothing rfl kind _))
  · rw [isConst]
    rintro rfl _
    exact .inl rfl
  · rw [isSignal]
    exact fun _ _ => .inl rfl
  · rw [isEnum]
    exact fun _ _ => .inl rfl
  · rw [isClass]
    rfl
  · rw [isName]
    exact fun _ _ => .inl rfl
  · rw [isBase]
    exact fun _ _ => .inl rfl
  · rw [isFunc]
    exact fun _ _ => .inr (isMethod_ofMethod named)

/-- The word `static` in front of a declaration changes nothing. -/
theorem ofKeyword_of_isDeclaration
    (context : Context)
    (depth : Nat)
    (kind : AnnotationKind)
    {code : Text}
    (declares : isDeclaration code = true) :
    let category := ofKeyword context depth kind (Peeled.ofCode code).rest
    if (firstWord (bareCode code)).1 = "class".toList then category = .other
    else depth = 0 → context.previousOpens = false →
      category.isClassLevel = true ∨ category.isMethod = true := by
  have nothing : beginsDeclaration [] = false := by
    decide
  unfold isDeclaration at declares
  unfold bareCode at declares ⊢
  unfold ofKeyword
  dsimp only at declares ⊢
  generalize peeled : (Peeled.ofCode code).rest = rest at declares ⊢
  cases isStaticCode : isStatic code with
  | false =>
      rw [isStaticCode, if_neg Bool.false_ne_true] at declares
      cases rest with
      | nil =>
          rw [nothing] at declares
          cases declares
      | cons first others =>
          exact ofKeywordWithin_of_beginsDeclaration context depth kind others.length declares
  | true =>
      rw [isStaticCode, if_pos rfl] at declares
      have static : (firstWord rest).1 = "static".toList := by
        rw [← peeled]
        exact eq_of_beq isStaticCode
      -- The word itself is longer than the two steps that are taken over it.
      obtain ⟨limit, enough⟩ : ∃ limit, rest.length = limit + 2 := by
        have word := congrArg List.length static
        have shorter : (firstWord rest).1.length ≤ rest.length :=
          ((List.takeWhile_sublist _).trans (List.dropWhile_sublist _)).length_le
        have six : ("static".toList : Text).length = 6 := rfl
        exact ⟨rest.length - 2, by omega⟩
      have step : ofKeywordWithin context depth kind (limit + 2) rest =
          ofKeywordWithin context depth kind (limit + 1) (firstWord rest).2.trim := by
        rw [ofKeywordWithin]
        dsimp only
        rw [static]
        rfl
      rw [enough, step]
      exact ofKeywordWithin_of_beginsDeclaration context depth kind limit declares

end Category

/-- Code that is not recognised as the header of an inner class, though it declares one, is overlooked. -/
theorem isOverlookedClass_iff
    {code : Text}
    (trimmed : code.trim = code) :
    isOverlookedClass code = true ↔
      (firstWord (bareCode code)).1 = "class".toList ∧ isInnerClassHeader code = false := by
  unfold isOverlookedClass isInnerClassHeader
  rw [trimmed, Bool.and_eq_true, beq_iff_eq]
  refine and_congr_right fun isClass => ?_
  cases annotated : (Peeled.ofCode code).found with
  | true =>
      obtain ⟨named, rfl⟩ := Peeled.exists_mark_of_found annotated
      have noWord : (firstWord ('@' :: named)).1 = [] := rfl
      simp [noWord]
  | false =>
      have bare := Peeled.rest_of_not_found annotated
      cases isStaticCode : isStatic code with
      | true =>
          have static : (firstWord code).1 = "static".toList := by
            have word : (firstWord (Peeled.ofCode code).rest).1 = "static".toList :=
              eq_of_beq isStaticCode
            rwa [bare] at word
          rw [static]
          simp
      | false =>
          rw [bareCode, isStaticCode, bare, if_neg Bool.false_ne_true] at isClass
          rw [isClass]
          simp

namespace Line

/-- A statement is classified by its code, which is neither blank nor a comment. -/
theorem classify_of_isStatement
    {line : Line}
    {carry : Carry}
    {context : Context}
    {opens : Bool}
    (known : line.readIn carry context opens = line)
    (statement : line.isStatement = true) :
    classify context line.text = (line.category, line.annotationOnly) := by
  have neutral := isNeutral_of_isStatement known statement
  have category : (classify context line.text).1 = line.category := by
    rw [← known]
    simp [readIn, neutral]
  have annotationOnly : (classify context line.text).2 = line.annotationOnly := by
    rw [← known]
    simp [readIn, neutral]
  rw [← category, ← annotationOnly]

/-- A statement that is a declaration is classified by what follows its annotations. -/
theorem category_of_isDeclaration
    {line : Line}
    {carry : Carry}
    {context : Context}
    {opens : Bool}
    (known : line.readIn carry context opens = line)
    (statement : line.isStatement = true)
    (declares : isDeclaration line.code = true) :
    line.annotationOnly = false ∧
      ∃ kind, line.category =
        Category.ofKeyword context line.depth kind (Peeled.ofCode line.code).rest := by
  have classified := classify_of_isStatement known statement
  obtain ⟨starts, code⟩ : line.continues = false ∧ line.category.isTrivia = false := by
    simpa [isStatement] using statement
  have depth : context.unit.depth line.text = line.depth := by
    rw [← known]
    rfl
  have sameCode : (Scan.line none line.text).code.trim = line.code := by
    rw [Line.code, starts, if_neg Bool.false_ne_true]
  have someRest : (Peeled.ofCode line.code).rest.isEmpty = false := by
    rw [List.isEmpty_eq_false_iff]
    intro empty
    rw [isDeclaration, bareCode, isStatic, empty] at declares
    exact absurd declares (by decide)
  unfold classify at classified
  dsimp only at classified
  rw [sameCode, depth, someRest, Bool.and_false, if_neg Bool.false_ne_true] at classified
  split at classified
  · rw [Prod.mk.injEq] at classified
    rw [← classified.1] at code
    cases code
  · split at classified
    · rw [Prod.mk.injEq] at classified
      rw [← classified.1] at code
      cases code
    · exact ⟨(congrArg Prod.snd classified).symm, _, (congrArg Prod.fst classified).symm⟩

end Line

namespace Indent

/-- A declaration is stranded exactly if it is an inner class at file scope that is overlooked. -/
theorem Standing.leadsIn_iff_of_isDeclaration
    {border : Border}
    {line : Line}
    {rest : List Line}
    (standing : Standing border (line :: rest))
    (sound : border.Sound)
    (declares : isDeclaration line.code = true) :
    line.leadsIn = true ↔
      line.isStatement = true ∧ line.scope = .file ∧ isOverlookedClass line.code = true := by
  have trimmed (starts : line.continues = false) : line.code.trim = line.code := by
    rw [Line.code, starts, if_neg Bool.false_ne_true, Text.trim_trim]
  constructor
  · intro leads
    have statement := Line.isStatement_of_leadsIn leads
    have plain := Line.snapsToClass_of_leadsIn leads
    obtain ⟨_, atMargin, opensNothing⟩ := standing.margin_of_leadsIn sound leads
    obtain ⟨_, kind, category⟩ := Line.category_of_isDeclaration standing.own statement declares
    have byKeyword := Category.ofKeyword_of_isDeclaration border.context line.depth kind declares
    dsimp only at byKeyword
    rw [← category] at byKeyword
    simp only [snapsToClass, Bool.or_eq_false_iff] at plain
    refine ⟨statement, Line.scope_of_leadsIn leads, ?_⟩
    have starts := Line.continues_of_isStatement statement
    rw [isOverlookedClass_iff (trimmed starts)]
    split at byKeyword
    · rename_i isClass
      exact ⟨isClass, plain.2⟩
    · have known := byKeyword atMargin opensNothing
      rw [plain.1.1, plain.1.2] at known
      exact absurd known (by decide)
  · rintro ⟨statement, atFile, overlooked⟩
    obtain ⟨unannotated, kind, category⟩ :=
      Line.category_of_isDeclaration standing.own statement declares
    have byKeyword := Category.ofKeyword_of_isDeclaration border.context line.depth kind declares
    dsimp only at byKeyword
    have starts := Line.continues_of_isStatement statement
    obtain ⟨isClass, noHeader⟩ := (isOverlookedClass_iff (trimmed starts)).mp overlooked
    rw [if_pos isClass, ← category] at byKeyword
    simp [Line.leadsIn, starts, unannotated, atFile, byKeyword, noHeader]

end Indent

namespace Source

/--
Declarations are no orphans, with one exception: of the lines of a classified
and repaired file that declare anything, those lead into a run that declare an
inner class at file scope and are overlooked, being annotated, static, or not
ended by a colon on their first line.
-/
theorem stranded_declarations_are_overlooked_classes
    (style : IndentUnit.Style)
    (width : Int)
    (path : String)
    (content : Text) :
    let before := ((ofContent path content).classifyStage style width).indentStage
    ∀ line ∈ before.lines, isDeclaration line.code = true →
      (line.leadsIn = true ↔
        line.isStatement = true ∧ line.scope = .file ∧ isOverlookedClass line.code = true) := by
  intro before line isLine declares
  have classified := classifyStage_consistent style width (ofContent path content)
  obtain ⟨above, below, standing, sound⟩ :=
    classified.standing_indentStage.exists_border (Indent.Border.sound_top _) isLine
  exact standing.leadsIn_iff_of_isDeclaration sound declares

/-- Of a class on one line and a variable below it, both of which are declarations, one is stranded. -/
theorem inline_class_is_stranded_above_variable :
    let before :=
      ((ofContent "x.gd" "class Item: pass\nvar id = 0\n".toList).classifyStage
        .detected 4).indentStage
    before.lines.map (·.leadsIn) = [true, false] ∧
      ∀ line ∈ before.lines, isDeclaration line.code = true ∧
        (line.leadsIn = true ↔
          line.isStatement = true ∧ line.scope = .file ∧ isOverlookedClass line.code = true) := by
  have declares : ∀ line ∈ ((ofContent "x.gd" "class Item: pass\nvar id = 0\n".toList).classifyStage
      .detected 4).indentStage.lines, isDeclaration line.code = true := by
    decide +kernel
  refine ⟨by decide +kernel, fun line isLine => ⟨declares line isLine, ?_⟩⟩
  exact stranded_declarations_are_overlooked_classes .detected 4 "x.gd" _ line isLine
    (declares line isLine)

/-- A class that is written on one line is taken for a stranded statement, though it declares. -/
theorem inline_class_is_stranded :
    ∃ line ∈ ((ofContent "x.gd" "class Item: pass\n".toList).classifyStage
        .detected 4).indentStage.lines,
      isDeclaration line.code = true ∧ line.leadsIn = true := by
  decide +kernel

end Source

end ScriptUplift
