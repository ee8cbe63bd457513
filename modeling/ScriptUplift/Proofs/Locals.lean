import Mathlib.Data.List.Chain
import Mathlib.Tactic.Common
import ScriptUplift.Proofs.BlocksInPlace
import ScriptUplift.Proofs.BuiltCalls
import ScriptUplift.Proofs.RepeatedRepair

namespace ScriptUplift

/-!
# Locals stay in their method

In a file whose statements nest already, a variable that a method at class scope
declares in its body is read as a local, and repair leaves it where it is.  This
takes three things of the file.  The method stands at class scope, since a
method elsewhere is moved there.  No statement above the variable in the body
belongs at class scope, since such a statement is moved out of the body and
closes it.  And no annotation stands in front of the variable, unless it is the
first statement of a block, since annotations tell members from locals.
-/

namespace Peeled

/-- What was found stays found. -/
theorem found_within
    (limit : Nat)
    (kind : AnnotationKind)
    (code : Text) :
    (within limit kind true code).found = true := by
  induction limit generalizing kind code with
  | zero =>
      rfl
  | succ limit inductionHypothesis =>
      rw [within]
      split
      · rfl
      · dsimp only
        split
        · rfl
        · split
          · split
            · rfl
            · exact inductionHypothesis _ _
          · exact inductionHypothesis _ _

/-- Without an annotation in front of it, code is left as it is. -/
theorem rest_of_not_found
    {code : Text}
    (bare : (ofCode code).found = false) :
    (ofCode code).rest = code := by
  unfold ofCode at bare ⊢
  cases code with
  | nil =>
      rfl
  | cons first rest =>
      rw [List.length_cons, within] at bare ⊢
      split at bare
      · rfl
      · dsimp only at bare ⊢
        split at bare
        · rename_i unnamed
          rw [if_pos unnamed]
        · -- An annotation was found, so that nothing after it makes the code a bare one.
          split at bare
          · split at bare
            · cases bare
            · exact absurd ((found_within _ _ _).symm.trans bare) Bool.noConfusion
          · exact absurd ((found_within _ _ _).symm.trans bare) Bool.noConfusion

/-- An annotation begins with its mark. -/
theorem exists_mark_of_found
    {code : Text}
    (annotated : (ofCode code).found = true) :
    ∃ named, code = '@' :: named := by
  unfold ofCode at annotated
  cases code with
  | nil =>
      cases annotated
  | cons first rest =>
      refine ⟨rest, congrArg (· :: rest) ?_⟩
      by_contra notMark
      have noMark : Text.afterHead? (first :: rest) ['@'] = none := by
        simp [Text.afterHead?, Text.startsWith, Ne.symm notMark]
      rw [List.length_cons, within, noMark] at annotated
      cases annotated

end Peeled

namespace Line

/-- Whether a line declares a variable, whatever annotations stand in front. -/
def declaresVariable
    (line : Line) :
    Bool :=
  (firstWord (Peeled.ofCode line.code).rest).1 == "var".toList

/-- Whether an annotation stands in front of the code of a line. -/
def isAnnotated
    (line : Line) :
    Bool :=
  (Peeled.ofCode line.code).found

/-- A declaration of a variable is no header of an inner class. -/
theorem isInnerClassHeader_of_declaresVariable
    {line : Line}
    (declares : line.declaresVariable = true)
    (starts : line.continues = false) :
    isInnerClassHeader line.code = false := by
  have isVar : (firstWord (Peeled.ofCode line.code).rest).1 = "var".toList :=
    eq_of_beq declares
  have trimmed : line.code.trim = line.code := by
    rw [code, starts, if_neg Bool.false_ne_true, Text.trim_trim]
  unfold isInnerClassHeader
  rw [trimmed, Bool.and_eq_false_iff]
  refine .inl (decide_eq_false ?_)
  cases annotated : (Peeled.ofCode line.code).found with
  | false =>
      rw [Peeled.rest_of_not_found annotated] at isVar
      rw [isVar]
      decide
  | true =>
      obtain ⟨named, marked⟩ := Peeled.exists_mark_of_found annotated
      rw [marked]
      exact List.cons_ne_nil _ _ ∘ Eq.symm

end Line

/-- A declaration that begins with the keyword for variables is read as a field. -/
theorem Category.ofKeyword_of_var
    (context : Context)
    (depth : Nat)
    (kind : AnnotationKind)
    {code : Text}
    (isVar : (firstWord code).1 = "var".toList) :
    ofKeyword context depth kind code = ofField context depth kind (firstWord code).2 := by
  cases code with
  | nil =>
      exact absurd isVar (by decide)
  | cons first rest =>
      unfold ofKeyword
      rw [List.length_cons, ofKeywordWithin]
      dsimp only
      rw [isVar]
      rfl

/-- Below a header, or right of the margin without annotations, a variable is read as a local. -/
theorem Category.ofField_local
    {context : Context}
    {depth : Nat}
    {kind : AnnotationKind}
    (isLocal : context.previousOpens = true ∨
      0 < depth ∧ context.atClassLevel = false ∧ kind = .absent)
    (after : Text) :
    ofField context depth kind after = .other := by
  unfold ofField
  rcases isLocal with opens | ⟨nested, inBody, rfl⟩
  · rw [if_pos opens]
  · simp [nested, inBody]

/-- Below a statement that belongs to no class scope no annotation is pending. -/
theorem Context.pendingKind_of_not_classLevel
    {context : Context}
    (inBody : context.previous.isClassLevel = false) :
    context.pendingKind = .absent := by
  unfold pendingKind
  split
  · split
    · rename_i exported
      rw [exported] at inBody
      cases inBody
    · rename_i deferred
      rw [deferred] at inBody
      cases inBody
    · rfl
  · rfl

/-- A variable that is read as a local gets no category of its own. -/
theorem Line.category_of_declaresVariable
    {line : Line}
    {carry : Carry}
    {context : Context}
    {opens : Bool}
    (known : line.readIn carry context opens = line)
    (statement : line.isStatement = true)
    (declares : line.declaresVariable = true)
    (isLocal : context.previousOpens = true ∨
      0 < line.depth ∧ context.previous.isClassLevel = false ∧ line.isAnnotated = false) :
    line.category = .other := by
  have neutral := Line.isNeutral_of_isStatement known statement
  have category : (classify context line.text).1 = line.category := by
    rw [← known]
    simp [readIn, neutral]
  have depth : context.unit.depth line.text = line.depth := by
    rw [← known]
    rfl
  have starts : line.continues = false ∧ line.category.isTrivia = false := by
    simpa [isStatement] using statement
  have sameCode : (Scan.line none line.text).code.trim = line.code := by
    rw [Line.code, starts.1, if_neg Bool.false_ne_true]
  have isVar : (firstWord (Peeled.ofCode line.code).rest).1 = "var".toList :=
    eq_of_beq declares
  have notEmpty : (Peeled.ofCode line.code).rest.isEmpty = false := by
    rw [List.isEmpty_eq_false_iff]
    intro empty
    rw [empty] at isVar
    exact absurd isVar (by decide)
  have code := starts.2
  rw [← category] at code ⊢
  unfold classify at code ⊢
  dsimp only at code ⊢
  rw [sameCode, depth, notEmpty, Bool.and_false, if_neg Bool.false_ne_true] at code ⊢
  split at code
  · cases code
  · rename_i visible
    rw [if_neg visible]
    split at code
    · cases code
    · rename_i someCode
      rw [if_neg someCode]
      dsimp only
      rw [Category.ofKeyword_of_var _ _ _ isVar]
      apply Category.ofField_local
      rcases isLocal with opens | local?
      · exact .inl opens
      · obtain ⟨nested, inBody, bare⟩ := local?
        unfold isAnnotated at bare
        rw [bare, Context.pendingKind_of_not_classLevel inBody]
        exact .inr ⟨nested, by rw [Context.atClassLevel, inBody, Bool.false_and], rfl⟩

/-- What stands below known lines is known, in the context below them. -/
theorem readLines_below
    {carry : Carry}
    {context : Context}
    {first second : List Line}
    (known : readLines carry context (first ++ second) = first ++ second) :
    readLines (carry.through (first.map (·.text))) (context.belowAll first) second = second := by
  induction first generalizing carry context with
  | nil =>
      exact known
  | cons line rest inductionHypothesis =>
      rw [List.cons_append, readLines_cons, List.cons.injEq] at known
      obtain ⟨own, restKnown⟩ := known
      rw [own] at restKnown
      exact inductionHypothesis restKnown

/-- The depth of a known line is that of its text. -/
theorem depth_of_mem_readLines
    {carry : Carry}
    {context : Context}
    {lines : List Line}
    {line : Line}
    (member : line ∈ readLines carry context lines) :
    line.depth = context.unit.depth line.text := by
  induction lines generalizing carry context with
  | nil =>
      cases member
  | cons first rest inductionHypothesis =>
      rw [readLines_cons] at member
      rcases List.mem_cons.mp member with rfl | inRest
      · rfl
      · rw [inductionHypothesis inRest, Context.unit_below]

/-- Recomputation gives every line the depth of its text. -/
theorem depth_of_mem_refreshLines
    {unit : IndentUnit}
    {lines : List Line}
    {line : Line}
    (member : line ∈ refreshLines unit lines) :
    line.depth = unit.depth line.text := by
  have isRead : line ∈ readLines .neutral { unit := unit } lines := member
  have depth := depth_of_mem_readLines isRead
  exact depth

/-- Below a statement the last statement is the last one after it, if there is any. -/
theorem lastStatement?_below
    (above : List Line)
    {header : Line}
    (statement : header.isStatement = true)
    (body : List Line) :
    lastStatement? (above ++ header :: body) = some ((lastStatement? body).getD header) := by
  simp [lastStatement?, List.getLast?_append, List.getLast?_cons, statement]

/--
A variable that a method at class scope declares in its body, below nothing in
that body that belongs at class scope; annotations stand in front of it only
when it is the first statement of its block.
-/
structure DeclaresLocal
    (above : List Line)
    (header : Line)
    (body : List Line)
    (declaration : Line) :
    Prop where
  method : Indent.OpensMethod above header
  inBody : ∀ line ∈ body, line.isStatement = true → header.depth < line.depth
  undisturbed : ∀ line ∈ body, line.isStatement = true → Indent.snapsToClass line = false
  statement : declaration.isStatement = true
  deeper : header.depth < declaration.depth
  declares : declaration.declaresVariable = true
  plain : declaration.isAnnotated = false ∨ ((lastStatement? body).getD header).opens = true

instance (above : List Line) (header : Line) (body : List Line) (declaration : Line) :
    Decidable (DeclaresLocal above header body declaration) :=
  decidable_of_iff
    (Indent.OpensMethod above header ∧
      (∀ line ∈ body, line.isStatement = true → header.depth < line.depth) ∧
      (∀ line ∈ body, line.isStatement = true → Indent.snapsToClass line = false) ∧
      declaration.isStatement = true ∧ header.depth < declaration.depth ∧
      declaration.declaresVariable = true ∧
      (declaration.isAnnotated = false ∨ ((lastStatement? body).getD header).opens = true))
    ⟨fun ⟨method, inBody, undisturbed, statement, deeper, declares, plain⟩ =>
        ⟨method, inBody, undisturbed, statement, deeper, declares, plain⟩,
      fun isLocal => ⟨isLocal.method, isLocal.inBody, isLocal.undisturbed, isLocal.statement,
        isLocal.deeper, isLocal.declares, isLocal.plain⟩⟩

namespace DeclaresLocal

/-- The statement above a local opens its block, or does not belong at class scope. -/
theorem last_spec
    {above body : List Line}
    {header declaration : Line}
    (isLocal : DeclaresLocal above header body declaration) :
    let last := (lastStatement? body).getD header
    last.isStatement = true ∧ (last.opens = true ∨ Indent.snapsToClass last = false) := by
  intro last
  cases found : lastStatement? body with
  | none =>
      have isHeader : last = header := congrArg (·.getD header) found
      rw [isHeader]
      exact ⟨isLocal.method.statement, .inl isLocal.method.opens⟩
  | some line =>
      have isLine : last = line := congrArg (·.getD header) found
      obtain ⟨member, statement⟩ := List.mem_filter.mp (List.mem_of_getLast? found)
      rw [isLine]
      exact ⟨statement, .inr (isLocal.undisturbed line member statement)⟩

/-- A local is read as a plain statement. -/
theorem snapsToClass_eq
    {above body rest : List Line}
    {header declaration : Line}
    (isLocal : DeclaresLocal above header body declaration)
    {unit : IndentUnit}
    (known : refreshLines unit ((above ++ header :: body) ++ declaration :: rest) =
      (above ++ header :: body) ++ declaration :: rest) :
    Indent.snapsToClass declaration = false := by
  obtain ⟨lastStatement, opensOrPlain⟩ := isLocal.last_spec
  have ownKnown := readLines_below known
  rw [readLines_cons, List.cons.injEq, Context.belowAll_eq,
    lastStatement?_below above isLocal.method.statement] at ownKnown
  have category : declaration.category = .other := by
    refine Line.category_of_declaresVariable ownKnown.1 isLocal.statement isLocal.declares ?_
    rw [Option.elim_some, Context.below, if_pos lastStatement]
    rcases opensOrPlain with opens | inBody
    · exact .inl opens
    · refine isLocal.plain.elim (fun bare => .inr ⟨Nat.zero_lt_of_lt isLocal.deeper, ?_, bare⟩) .inl
      simp only [Indent.snapsToClass, Bool.or_eq_false_iff] at inBody
      exact inBody.1.1
  have starts : declaration.continues = false := by
    have statement := isLocal.statement
    simp only [Line.isStatement, Bool.and_eq_true, Bool.not_eq_true'] at statement
    exact statement.1
  unfold Indent.snapsToClass
  rw [category, Line.isInnerClassHeader_of_declaresVariable isLocal.declares starts]
  rfl

section

variable
  {above body rest : List Line}
  {header declaration : Line}
  (isLocal : DeclaresLocal above header body declaration)
  {unit : IndentUnit}
  (nested : Indent.WellNested unit ((above ++ header :: body) ++ declaration :: rest))
  (plain : Indent.snapsToClass declaration = false)

include isLocal nested plain

/-- Around a local the open blocks are in place, as many as it is deep, its method among them. -/
theorem around :
    let progress := Indent.Progress.belowAll ⟨[], 0⟩ (above ++ header :: body)
    Indent.bodyDepthOf (Indent.around progress.frames declaration) = declaration.depth ∧
      Indent.scopeOf (Indent.around progress.frames declaration) = .method := by
  intro progress
  have chain := nested.2
  rw [List.filter_append, List.filter_append, List.filter_cons_of_pos isLocal.method.statement,
    List.filter_cons_of_pos isLocal.statement, List.append_assoc] at chain
  obtain ⟨bodyNests, _, ownNests⟩ := List.isChain_append.mp chain.right_of_append
  have nests : Indent.NestsBelow ((lastStatement? body).getD header) declaration :=
    ownNests _ List.getLast?_cons _ rfl
  have step : progress =
      ((Indent.Progress.belowAll ⟨[], 0⟩ above).below header).belowAll body :=
    Indent.Progress.belowAll_append _ above (header :: body)
  have atHeader := Indent.inBody_of_opensMethod isLocal.method
  rw [← Indent.Progress.frames_below _ isLocal.method.statement] at atHeader
  have below := atHeader.belowAll bodyNests isLocal.undisturbed isLocal.inBody
  rw [← step] at below
  obtain ⟨inPlace, length⟩ := below.around nests plain
  obtain ⟨frame, member, isMethod, _⟩ := below.method_around plain isLocal.deeper
  refine ⟨inPlace.bodyDepthOf_eq.trans length, ?_⟩
  unfold Indent.scopeOf
  rw [if_pos (List.any_eq_true.mpr ⟨frame, member, by rw [isMethod]; rfl⟩)]

/-- Repair leaves a local where it is. -/
theorem placed_eq :
    let progress := Indent.Progress.belowAll ⟨[], 0⟩ (above ++ header :: body)
    Indent.placed unit progress.frames declaration = { declaration with scope := .method } := by
  intro progress
  obtain ⟨depth, scope⟩ := isLocal.around nested plain
  have lead : declaration.text.indentation = unit.lead declaration.depth := by
    refine nested.1 declaration (List.mem_filter.mpr ⟨?_, isLocal.statement⟩)
    exact List.mem_append_right _ List.mem_cons_self
  have stays : unit.reindent declaration.text declaration.depth = declaration.text := by
    rw [IndentUnit.reindent, ← lead, Text.indentation_append_dropIndentation]
  rw [Indent.placed, depth, scope, stays]

end

end DeclaresLocal

namespace Source

/--
In a file whose statements nest already, repair keeps the text and the depth of
every local, and finds it in the scope of a method.
-/
theorem locals_stay_in_their_method
    (style : IndentUnit.Style)
    (width : Int)
    (path : String)
    (content : Text)
    {above body rest : List Line}
    {header declaration : Line}
    (nested : Indent.WellNested ((ofContent path content).classifyStage style width).unit
      ((ofContent path content).classifyStage style width).lines)
    (lines : ((ofContent path content).classifyStage style width).lines =
      (above ++ header :: body) ++ declaration :: rest)
    (isLocal : DeclaresLocal above header body declaration) :
    let after := ((ofContent path content).classifyStage style width).indentStage
    ∃ out, after.lines[(above ++ header :: body).length]? = some out ∧
      out.number = declaration.number ∧ out.text = declaration.text ∧
      out.depth = declaration.depth ∧ out.scope = .method := by
  have consistent := classifyStage_consistent style width (ofContent path content)
  generalize (ofContent path content).classifyStage style width = before at *
  intro after
  have known := consistent.fresh
  rw [lines] at nested known
  have plain := isLocal.snapsToClass_eq known
  have stays := isLocal.placed_eq nested plain
  have repaired := Indent.Progress.repair_append ⟨[], 0⟩ before.unit (above ++ header :: body)
    (declaration :: rest)
  unfold Indent.Progress.repair at repaired
  rw [Indent.repairLines_statement _ _ _ isLocal.statement, stays, ← lines] at repaired
  have found : (Indent.repairLines before.unit [] 0 before.lines)[(above ++ header :: body).length]? =
      some { declaration with scope := .method } := by
    rw [repaired, List.getElem?_append_right (by simp), Indent.length_repairLines, Nat.sub_self]
    rfl
  have same := congrArg (·[(above ++ header :: body).length]?)
    (refreshLines_identity before.unit (Indent.repairLines before.unit [] 0 before.lines))
  rw [← lines_indentStage consistent, List.getElem?_map, List.getElem?_map, found] at same
  obtain ⟨out, isOut, identity⟩ := Option.map_eq_some_iff.mp same
  have text : out.text = declaration.text := congrArg Identity.text identity
  have outDepth : out.depth = before.unit.depth out.text := by
    have member := List.mem_of_getElem? isOut
    rw [lines_indentStage consistent] at member
    exact depth_of_mem_refreshLines member
  have ownDepth : declaration.depth = before.unit.depth declaration.text := by
    have member : declaration ∈ (above ++ header :: body) ++ declaration :: rest :=
      List.mem_append_right _ List.mem_cons_self
    rw [← known] at member
    exact depth_of_mem_refreshLines member
  refine ⟨out, isOut, congrArg Identity.number identity, text, ?_,
    congrArg Identity.scope identity⟩
  rw [outDepth, text, ownDepth]

/-- A local of a method in an inner class stays, below a block in that method. -/
theorem local_stays_in_method_of_inner_class :
    let content := "class A:\n\tfunc f():\n\t\tif a:\n\t\t\tpass\n\t\tvar b = 1\n"
    let before := (ofContent "x.gd" content.toList).classifyStage .tab 4
    let after := before.indentStage
    let above := before.lines.take 1
    let header := before.lines.getD 1 {}
    let body := (before.lines.drop 2).take 2
    let declaration := before.lines.getD 4 {}
    Indent.WellNested before.unit before.lines ∧
      before.lines = (above ++ header :: body) ++ declaration :: [] ∧
      DeclaresLocal above header body declaration ∧
      ∃ out, after.lines[(above ++ header :: body).length]? = some out ∧
        out.number = declaration.number ∧ out.text = declaration.text ∧
        out.depth = declaration.depth ∧ out.scope = .method := by
  intro content before after above header body declaration
  have facts : Indent.WellNested before.unit before.lines ∧
      before.lines = (above ++ header :: body) ++ declaration :: [] ∧
      DeclaresLocal above header body declaration := by
    decide +kernel
  obtain ⟨nested, lines, isLocal⟩ := facts
  exact ⟨nested, lines, isLocal,
    locals_stay_in_their_method .tab 4 "x.gd" content.toList nested lines isLocal⟩

/--
Three variables in the bodies of methods are moved although their file is well
nested: one under an annotation that stands for a member, one below it, and one
in a method that stands in a block.
-/
theorem variables_leave_their_methods :
    let content :=
      "func f():\n\tpass\n\t@export var a = 1\n\tvar b = 2\nif x:\n\tfunc g():\n\t\tvar c = 3\n"
    let before := (ofContent "x.gd" content.toList).classifyStage .detected 4
    let after := before.indentStage
    let declared (source : Source) :=
      (source.lines.filter (·.declaresVariable)).map fun line => (String.ofList line.text, line.depth)
    Indent.WellNested before.unit before.lines ∧
      before.lines.map (·.category.isMethod) = [true, false, false, false, false, true, false] ∧
      declared before = [("\t@export var a = 1", 1), ("\tvar b = 2", 1), ("\t\tvar c = 3", 2)] ∧
      declared after = [("@export var a = 1", 0), ("var b = 2", 0), ("\tvar c = 3", 1)] := by
  decide +kernel

end Source

end ScriptUplift
