import Mathlib.Data.List.Basic
import Mathlib.Tactic.Common
import ScriptUplift.Proofs.EditedLines

namespace ScriptUplift

/-!
# Brackets that stay nested

The search for calls counts brackets without a look at their kind.  Where the
brackets of a line are nested by kind, every stretch that leaves the count as it
was, and never falls below it, leaves the open brackets as they were as well.  So
the arguments of a call are nested, and what is put together from them is.  A
rule keeps a line nested unless it takes the first and the last bracket of two
arrays for those of one, or joins the marks of two strings to those of another.
-/

/-- The bracket that closes an opening one. -/
def closingOf
    (opening : Char) :
    Char :=
  if opening = '(' then ')'
  else if opening = '[' then ']'
  else '\x7d'

/-- The open brackets, the innermost one first, after one more character outside of strings. -/
def nestStep
    (opened : List Char)
    (character : Char) :
    Option (List Char) :=
  if isOpeningBracket character then
    some (character :: opened)
  else if isClosingBracket character then
    match opened with
    | innermost :: others =>
        if closingOf innermost = character then some others else none
    | [] =>
        none
  else
    some opened

/-- The open brackets after a text, if each one is closed by its own kind. -/
def Scanning.nest : Scanning → List Char → Text → Option (List Char)
  | _, opened, [] =>
      some opened
  | scanning, opened, character :: rest =>
      (nestStep opened (scanning.shown character)).bind fun next =>
        nest (scanning.step character) next rest

/-- A line with closed strings and with brackets that nest by kind. -/
structure IsWellNested
    (line : Text) :
    Prop where
  closed : (Scanning.code.through (Scan.line none line).code).settle = .code
  nested : Scanning.code.nest [] (Scan.line none line).code = some []

theorem nestStep_of_flat
    (opened : List Char)
    {character : Char}
    (noOpening : isOpeningBracket character = false)
    (noClosing : isClosingBracket character = false) :
    nestStep opened character = some opened := by
  simp [nestStep, noOpening, noClosing]

theorem length_nestStep
    {opened next : List Char}
    {character : Char}
    (stepped : nestStep opened character = some next) :
    (next.length : Int) = opened.length + bracketStep character := by
  unfold nestStep bracketStep at *
  by_cases opens : isOpeningBracket character = true
  · rw [if_pos opens] at stepped
    obtain rfl := Option.some.inj stepped
    simp [opens]
  · rw [if_neg opens] at stepped ⊢
    by_cases closes : isClosingBracket character = true
    · rw [if_pos closes] at stepped ⊢
      split at stepped
      · split at stepped
        · obtain rfl := Option.some.inj stepped
          rw [List.length_cons]
          omega
        · cases stepped
      · cases stepped
    · rw [if_neg closes] at stepped ⊢
      obtain rfl := Option.some.inj stepped
      omega

/-- What one character does to the innermost brackets does not depend on those around them. -/
theorem nestStep_frame
    {inner outer next : List Char}
    {character : Char}
    (deep : isClosingBracket character = true → inner ≠ [])
    (stepped : nestStep (inner ++ outer) character = some next) :
    ∃ nextInner, next = nextInner ++ outer ∧
      ∀ other, nestStep (inner ++ other) character = some (nextInner ++ other) := by
  unfold nestStep at stepped ⊢
  by_cases opens : isOpeningBracket character = true
  · rw [if_pos opens] at stepped
    obtain rfl := Option.some.inj stepped
    exact ⟨character :: inner, rfl, fun other => if_pos opens⟩
  · simp only [if_neg opens] at stepped ⊢
    by_cases closes : isClosingBracket character = true
    · obtain ⟨innermost, others, rfl⟩ := List.exists_cons_of_ne_nil (deep closes)
      simp only [if_pos closes, List.cons_append] at stepped ⊢
      split at stepped
      · rename_i partner
        obtain rfl := Option.some.inj stepped
        exact ⟨others, rfl, fun other => if_pos partner⟩
      · cases stepped
    · rw [if_neg closes] at stepped
      obtain rfl := Option.some.inj stepped
      exact ⟨inner, rfl, fun other => if_neg closes⟩

namespace Scanning

theorem nest_append
    (scanning : Scanning)
    (opened : List Char)
    (first second : Text) :
    scanning.nest opened (first ++ second) =
      (scanning.nest opened first).bind ((scanning.through first).nest · second) := by
  induction first generalizing scanning opened with
  | nil =>
      rfl
  | cons character rest inductionHypothesis =>
      rw [List.cons_append, nest, nest, Option.bind_assoc]
      exact Option.bind_congr fun next _ => inductionHypothesis (scanning.step character) next

/-- From anywhere in code a quiet character is read like from code itself. -/
theorem nest_of_quiet_cons
    {scanning : Scanning}
    (proper : scanning.IsProper)
    (inCode : scanning.settle = .code)
    (opened : List Char)
    {character : Char}
    (quiet : isQuiet character = true)
    (rest : Text) :
    scanning.nest opened (character :: rest) = Scanning.code.nest opened (character :: rest) := by
  have sameShown : scanning.shown character = Scanning.code.shown character := by
    rw [shown, shown, inCode]
    rfl
  rw [nest, nest, sameShown, step_of_isQuiet proper quiet, step_of_isQuiet isProper_code quiet,
    inCode]
  rfl

/-- Without brackets the open ones stay open. -/
theorem nest_of_flat
    (scanning : Scanning)
    (opened : List Char)
    {text : Text}
    (flat : text.all isFlatChar = true) :
    scanning.nest opened text = some opened := by
  induction text generalizing scanning with
  | nil =>
      rfl
  | cons character rest inductionHypothesis =>
      rw [List.all_cons, Bool.and_eq_true] at flat
      have own := flat.1
      simp only [isFlatChar, Bool.and_eq_true, Bool.not_eq_true'] at own
      have stepped : nestStep opened (scanning.shown character) = some opened := by
        unfold shown
        split
        · exact nestStep_of_flat opened own.1.2 own.2
        · rfl
      rw [nest, stepped]
      exact inductionHypothesis _ flat.2

/--
A walk that never falls below the depth it begins at does not touch the brackets
around it, whichever they are.
-/
theorem nest_of_walk
    {scanning : Scanning}
    (proper : scanning.IsProper)
    {text : Text}
    (legible : scanning.isLegible text = true)
    {next : Quoting}
    {depth nextDepth : Nat}
    (walked : walk scanning.quoting depth text = some (next, nextDepth))
    {inner outer result : List Char}
    (deep : inner.length = depth)
    (nested : scanning.nest (inner ++ outer) text = some result) :
    ∃ nextInner, result = nextInner ++ outer ∧ nextInner.length = nextDepth ∧
      ∀ other, scanning.nest (inner ++ other) text = some (nextInner ++ other) := by
  induction text generalizing scanning depth inner with
  | nil =>
      obtain ⟨_, rfl⟩ := Prod.mk.inj (Option.some.inj walked)
      obtain rfl := Option.some.inj nested
      exact ⟨inner, rfl, deep, fun _ => rfl⟩
  | cons character rest inductionHypothesis =>
      obtain ⟨pairs, notComment, below⟩ := isLegible_cons.mp legible
      obtain ⟨⟨between, betweenDepth⟩, advanced, walkedRest⟩ := Option.bind_eq_some_iff.mp walked
      obtain ⟨rfl, isBetween, _, closes⟩ := advance_eq_some advanced
      obtain ⟨opened, stepped, nestedRest⟩ := Option.bind_eq_some_iff.mp nested
      rw [← quoting_step proper pairs notComment] at walkedRest
      rw [← shown_eq proper pairs notComment] at isBetween closes
      -- At depth zero the walk closes nothing, so a bracket that is closed is an inner one.
      have some (closing : isClosingBracket (scanning.shown character) = true) : inner ≠ [] := by
        rintro rfl
        exact closes closing deep.symm
      have sameDepth := length_nestStep stepped
      obtain ⟨nextInner, rfl, framed⟩ := nestStep_frame some stepped
      rw [List.length_append, List.length_append] at sameDepth
      obtain ⟨lastInner, rfl, lastDepth, framedRest⟩ :=
        inductionHypothesis (proper.step character) below walkedRest (by omega) nestedRest
      refine ⟨lastInner, rfl, lastDepth, fun other => ?_⟩
      rw [nest, framed other]
      exact framedRest other

end Scanning

/-! ## Nested texts -/

/-- A text that is read in code, and closes by kind whatever brackets it opens. -/
structure NestsInCode
    (text : Text) :
    Prop where
  reads : ReadsInCode text
  nests : ∀ opened, Scanning.code.nest opened text = some opened

namespace NestsInCode

/-- A closed text is nested if it is so between some brackets. -/
theorem of_isClosed
    {text : Text}
    (closed : IsClosed text)
    (reads : ReadsInCode text)
    {opened result : List Char}
    (nested : Scanning.code.nest opened text = some result) :
    NestsInCode text ∧ result = opened := by
  obtain ⟨inner, rfl, noneOpen, framed⟩ :=
    @Scanning.nest_of_walk .code Scanning.isProper_code text reads.legible .outside 0 0 closed
      [] opened result rfl nested
  obtain rfl := List.eq_nil_of_length_eq_zero noneOpen
  exact ⟨⟨reads, framed⟩, rfl⟩

theorem of_flat
    {text : Text}
    (flat : text.all isFlatChar = true) :
    NestsInCode text :=
  ⟨.of_quiet (all_isQuiet_of_flat flat), fun opened => Scanning.nest_of_flat _ opened flat⟩

theorem prepend
    {front text : Text}
    (flat : front.all isFlatChar = true)
    (nested : NestsInCode text) :
    NestsInCode (front ++ text) := by
  have quiet := all_isQuiet_of_flat flat
  refine ⟨.quiet_append quiet nested.reads, fun opened => ?_⟩
  rw [Scanning.nest_append, Scanning.nest_of_flat _ opened flat,
    Scanning.through_code_of_quiet quiet]
  exact nested.nests opened

theorem append
    {first second : Text}
    (firstNests : NestsInCode first)
    (secondNests : NestsInCode second)
    (quiet : ∀ character ∈ second.head?, Scanning.isQuiet character = true) :
    NestsInCode (first ++ second) := by
  refine ⟨firstNests.reads.append secondNests.reads quiet, fun opened => ?_⟩
  rw [Scanning.nest_append, firstNests.nests opened, Option.bind_some]
  cases second with
  | nil =>
      rfl
  | cons character rest =>
      rw [Scanning.nest_of_quiet_cons (Scanning.isProper_code.through first)
        firstNests.reads.settles opened (quiet character rfl)]
      exact secondNests.nests opened

theorem trim
    {text : Text}
    (nested : NestsInCode text) :
    NestsInCode text.trim := by
  refine ⟨nested.reads.trim, fun opened => ?_⟩
  obtain ⟨front, back, frontBlank, backBlank, shape⟩ := text.exists_trim
  have frontFlat := all_isFlatChar_of_plain (all_isPlainChar_of_blank frontBlank)
  have backFlat := all_isFlatChar_of_plain (all_isPlainChar_of_blank backBlank)
  have whole := nested.nests opened
  rw [shape, Scanning.nest_append, Scanning.nest_of_flat _ opened frontFlat,
    Scanning.through_code_of_quiet (all_isQuiet_of_flat frontFlat), Option.bind_some,
    Scanning.nest_append] at whole
  obtain ⟨between, found, isBetween⟩ := Option.bind_eq_some_iff.mp whole
  rw [Scanning.nest_of_flat _ between backFlat] at isBetween
  rw [found, isBetween]

theorem bracketed
    {inner : Text}
    (nested : NestsInCode inner) :
    NestsInCode ('(' :: (inner ++ [')'])) := by
  refine ⟨(ReadsInCode.surround_iff (by decide : ['('].all Scanning.isQuiet = true)
    (by decide : [')'].all Scanning.isQuiet = true)).mpr nested.reads, fun opened => ?_⟩
  have opening : Scanning.code.nest opened ('(' :: (inner ++ [')'])) =
      Scanning.code.nest ('(' :: opened) (inner ++ [')']) :=
    rfl
  rw [opening, Scanning.nest_append, nested.nests, Option.bind_some,
    Scanning.nest_of_quiet_cons (Scanning.isProper_code.through inner) nested.reads.settles _
      (by decide)]
  rfl

/-- What is nested can be put together. -/
theorem compositional : Compositional NestsInCode where
  flat flat := of_flat flat
  prepend flat nested := nested.prepend flat
  append firstNests secondNests quiet := firstNests.append secondNests quiet
  trim nested := nested.trim
  bracketed nested := nested.bracketed

/-- The pieces of a list in brackets are nested if the list is. -/
theorem of_joinWith
    {pieces : List Text}
    (closed : ∀ piece ∈ pieces, IsClosed piece)
    (reads : ∀ piece ∈ pieces, ReadsInCode piece)
    {opened result : List Char}
    (nested : Scanning.code.nest opened (Text.joinWith [','] pieces) = some result) :
    ∀ piece ∈ pieces, NestsInCode piece := by
  induction pieces generalizing opened with
  | nil =>
      exact nofun
  | cons first others inductionHypothesis =>
      obtain ⟨firstClosed, othersClosed⟩ := List.forall_mem_cons.mp closed
      obtain ⟨firstReads, othersRead⟩ := List.forall_mem_cons.mp reads
      cases others with
      | nil =>
          rw [Text.joinWith_singleton] at nested
          exact List.forall_mem_singleton.mpr (of_isClosed firstClosed firstReads nested).1
      | cons second others =>
          rw [Text.joinWith_cons_cons, Scanning.nest_append] at nested
          obtain ⟨between, nestedFirst, below⟩ := Option.bind_eq_some_iff.mp nested
          have behindComma : (Scanning.code.through first).nest between
              (',' :: Text.joinWith [','] (second :: others)) =
                Scanning.code.nest between (Text.joinWith [','] (second :: others)) :=
            Scanning.nest_of_quiet_cons (Scanning.isProper_code.through first) firstReads.settles
              between (by decide) _
          exact List.forall_mem_cons.mpr ⟨(of_isClosed firstClosed firstReads nestedFirst).1,
            inductionHypothesis othersClosed othersRead (behindComma.symm.trans below)⟩

end NestsInCode

theorem nestsInCode_of_mem_argumentsOf
    {pieces : List Text}
    (nested : ∀ piece ∈ pieces, NestsInCode piece) :
    ∀ argument ∈ argumentsOf pieces, NestsInCode argument := by
  intro argument member
  obtain ⟨piece, isPiece, rfl⟩ := exists_of_mem_argumentsOf member
  exact (nested piece isPiece).trim

/-- The pieces of a call are nested where the code around it is. -/
theorem SpacedCall.nestsInCode_of_mem
    {callee text : Text}
    {pieces : List Text}
    (called : SpacedCall callee pieces text)
    {above rest : Text}
    (legible : Scanning.code.isLegible (above ++ (text ++ rest)) = true)
    (outside : Quoting.outside.through above = .outside)
    {opened result : List Char}
    (nested : Scanning.code.nest opened (above ++ (text ++ rest)) = some result) :
    ∀ piece ∈ pieces, NestsInCode piece := by
  have inCode := called.settle_of_isLegible legible outside
  have proper := Scanning.isProper_code.through above
  have reads := called.readsInCode_of_mem proper inCode (Scanning.isLegible_append.mp legible).2
  obtain ⟨front, closing, words, closes, rfl⟩ := called.exists_front
  have flat := all_isFlatChar_of_plain words.plain
  rw [Scanning.nest_append] at nested
  obtain ⟨between, _, below⟩ := Option.bind_eq_some_iff.mp nested
  rw [List.append_assoc, Scanning.nest_append, Scanning.nest_of_flat _ between flat,
    Option.bind_some, Scanning.through_of_quiet proper words.nonempty (all_isQuiet_of_flat flat),
    inCode] at below
  have opening : Scanning.code.nest between
      (('(' :: (Text.joinWith [','] pieces ++ [closing])) ++ rest) =
        Scanning.code.nest ('(' :: between) (Text.joinWith [','] pieces ++ ([closing] ++ rest)) := by
    rw [← List.append_assoc]
    rfl
  rw [opening, Scanning.nest_append] at below
  obtain ⟨behind, nestedPieces, _⟩ := Option.bind_eq_some_iff.mp below
  exact .of_joinWith called.closed reads nestedPieces

/-! ## Edits -/

/-- From arguments that are closed and nested only nested texts are built. -/
def BuildsNested
    (build : List Text → Option Text) :
    Prop :=
  ∀ arguments text, (∀ argument ∈ arguments, IsClosed argument ∧ NestsInCode argument) →
    build arguments = some text → NestsInCode text

/-- One nested part of code can take the place of another. -/
theorem nest_replaced
    {above old new rest : Text}
    (inCode : (Scanning.code.through above).settle = .code)
    (oldPart : IsCodePart old)
    (newPart : IsCodePart new)
    (newNests : NestsInCode new)
    {opened result : List Char}
    (nested : Scanning.code.nest opened (above ++ (old ++ rest)) = some result) :
    Scanning.code.nest opened (above ++ (new ++ rest)) = some result := by
  have proper := Scanning.isProper_code.through above
  have entered {part : Text} (isPart : IsCodePart part) (opened : List Char) :
      (Scanning.code.through above).nest opened part = Scanning.code.nest opened part := by
    obtain ⟨first, others, rfl, quiet⟩ := isPart.begins
    exact Scanning.nest_of_quiet_cons proper inCode opened quiet others
  rw [Scanning.nest_append] at nested ⊢
  obtain ⟨between, nestedAbove, below⟩ := Option.bind_eq_some_iff.mp nested
  rw [Scanning.nest_append, entered oldPart, oldPart.through_eq proper inCode] at below
  obtain ⟨behind, nestedOld, nestedRest⟩ := Option.bind_eq_some_iff.mp below
  obtain rfl := (NestsInCode.of_isClosed oldPart.closed oldPart.reads nestedOld).2
  rw [nestedAbove, Option.bind_some, Scanning.nest_append, entered newPart,
    newPart.through_eq proper inCode, newNests.nests behind]
  exact nestedRest

section

variable {callee : Text} {build : List Text → Option Text} {code result : Text}

theorem Edit.nest_eq
    (edit : Edit callee build code result)
    (parts : BuildsParts build)
    (builds : BuildsNested build)
    (legible : Scanning.code.isLegible code = true)
    {opened : List Char}
    (nested : Scanning.code.nest [] code = some opened) :
    Scanning.code.nest [] result = some opened := by
  cases edit with
  | @words above old new rest outside oldWords newWords _ =>
      have oldPart := oldWords.isCodePart
      obtain ⟨first, others, rfl, quiet⟩ := oldPart.begins
      have inCode : (Scanning.code.through above).settle = .code :=
        Scanning.settle_of_isLegible legible outside (Scanning.isQuoteMark_of_isQuiet quiet)
      exact nest_replaced inCode oldPart newWords.isCodePart
        (.of_flat (all_isFlatChar_of_plain newWords.plain)) nested
  | @call above old new rest pieces outside called built =>
      have inCode := called.settle_of_isLegible legible outside
      have reads := called.readsInCode_of_mem (Scanning.isProper_code.through above) inCode
        (Scanning.isLegible_append.mp legible).2
      have good := closed_and_reads_of_mem_argumentsOf called.closed reads
      have nests := nestsInCode_of_mem_argumentsOf (called.nestsInCode_of_mem legible outside nested)
      exact nest_replaced inCode (called.isCodePart reads) (parts _ _ good built)
        (builds _ _ (fun argument member => ⟨(good argument member).1, nests argument member⟩) built)
        nested

theorem Edits.nest_eq
    (edits : Edits callee build code result)
    (parts : BuildsParts build)
    (builds : BuildsNested build)
    (legible : Scanning.code.isLegible code = true)
    {opened : List Char}
    (nested : Scanning.code.nest [] code = some opened) :
    Scanning.code.nest [] result = some opened := by
  induction edits with
  | refl =>
      exact nested
  | tail before edit inductionHypothesis =>
      exact edit.nest_eq parts builds (Edits.scannedAlike before parts legible).legible inductionHypothesis

end

/-! ## Calls that are replaced with care -/

/-- Whether the bound arguments of a connection are one array and nothing else. -/
def bindsOneArray
    (arguments : List Text) :
    Bool :=
  match arguments[3]? with
  | some binds =>
      closingIndex binds 0 == some (binds.length - 1)
  | none =>
      true

namespace UpliftRule

/--
Whether what a rule builds from arguments stays nested wherever it stands: the
first and the last bracket of bound arguments are those of one array, and no empty
string ends an awaited expression, which a mark behind it would go on with.
-/
def isSafe : UpliftRule → List Text → Text → Bool
  | .connect, arguments, _ =>
      bindsOneArray arguments
  | .suspension, _, built =>
      Scanning.code.through built == .code
  | _, _, _ =>
      true

/-- What a rule builds from arguments, if that is safe. -/
def safeBuild
    (rule : UpliftRule)
    (arguments : List Text) :
    Option Text :=
  (rule.build arguments).filter (rule.isSafe arguments)

/-- Apply a rule, but leave the calls alone that cannot be replaced safely. -/
def applySafely
    (rule : UpliftRule)
    (above text : Text) :
    Option Replacement :=
  match rule with
  | .connect =>
      replaceCalls "connect" (safeBuild .connect) text
  | .suspension =>
      replaceCalls "yield" (safeBuild .suspension) text
  | _ =>
      rule.apply above text

end UpliftRule

/-- What stands between the brackets of one array is nested if the array is. -/
theorem nestsInCode_of_array
    {inner : Text}
    (nested : NestsInCode ('[' :: (inner ++ [']'])))
    (one : closingIndex ('[' :: (inner ++ [']'])) 0 = some (inner.length + 1)) :
    NestsInCode inner := by
  -- A walk at depth one may close the array and open another; its pieces are walked at depth zero.
  obtain ⟨pieces, closing, rest, closed, closes, shape, isLast, _⟩ :=
    exists_pieces_of_closingIndex (by decide : isOpeningBracket '[' = true)
      (rfl : List.drop 0 ('[' :: (inner ++ [']'])) = _) one
  obtain ⟨rfl, _⟩ : inner = Text.joinWith [','] pieces ∧ [']'] = closing :: rest :=
    List.append_inj shape (by omega)
  have legible : Scanning.code.isLegible (Text.joinWith [','] pieces ++ [']']) = true := by
    have whole := nested.reads.legible
    rwa [Scanning.isLegible_of_quiet_cons Scanning.isProper_code rfl (by decide)] at whole
  have reads := ReadsInCode.of_joinWith closed (by decide) legible
  have opening : Scanning.code.nest [] ('[' :: (Text.joinWith [','] pieces ++ [']'])) =
      Scanning.code.nest ['['] (Text.joinWith [','] pieces ++ [']']) :=
    rfl
  have whole := nested.nests []
  rw [opening, Scanning.nest_append] at whole
  obtain ⟨behind, nestedPieces, _⟩ := Option.bind_eq_some_iff.mp whole
  exact NestsInCode.compositional.joinWith (by simp) (by decide)
    (NestsInCode.of_joinWith closed reads nestedPieces)

theorem nestsInCode_of_bindsOneArray
    {arguments : List Text}
    (one : bindsOneArray arguments = true)
    (nested : ∀ argument ∈ arguments, NestsInCode argument)
    {inner : Text}
    (isArray : arguments[3]? = some ('[' :: (inner ++ [']']))) :
    NestsInCode inner := by
  rw [bindsOneArray, isArray] at one
  refine nestsInCode_of_array (nested _ (List.mem_of_getElem? isArray)) ?_
  simpa using one

namespace UpliftRule

theorem safeBuild_eq_some
    {rule : UpliftRule}
    {arguments : List Text}
    {text : Text}
    (built : rule.safeBuild arguments = some text) :
    rule.build arguments = some text ∧ rule.isSafe arguments text = true := by
  simpa [safeBuild, Option.filter_eq_some_iff] using built

/-- Every rule builds parts of code as long as it is safe. -/
theorem buildsParts_safeBuild
    (rule : UpliftRule) :
    BuildsParts rule.safeBuild := by
  intro arguments text good built
  obtain ⟨isBuilt, safe⟩ := safeBuild_eq_some built
  by_cases isSuspension : rule = .suspension
  · subst isSuspension
    obtain ⟨first, rest, shape, letter⟩ :=
      (operand_awaitExpression? (fun _ member => (good _ member).1) isBuilt).exists_head
    refine ⟨(operand_awaitExpression? (fun _ member => (good _ member).1) isBuilt).closed,
      ReadsInCode.compositional.awaitExpression? (fun _ member => (good _ member).2) isBuilt,
      ⟨first, rest, shape, ?_⟩, beq_iff_eq.mp safe⟩
    exact Scanning.isQuiet_of_isPlainChar (isPlainChar_of_isIdentifierChar letter)
  · exact buildsParts isSuspension arguments text good isBuilt

/-- Every rule builds nested texts as long as it is safe. -/
theorem buildsNested_safeBuild
    (rule : UpliftRule) :
    BuildsNested rule.safeBuild := by
  intro arguments text good built
  obtain ⟨isBuilt, safe⟩ := safeBuild_eq_some built
  have nested : ∀ argument ∈ arguments, NestsInCode argument :=
    fun argument member => (good argument member).2
  have kept := NestsInCode.compositional
  cases rule with
  | toolDirective | preloadStutter | deferredInit =>
      cases isBuilt
  | exportedField =>
      obtain rfl := Option.some.inj isBuilt
      exact .of_flat (by decide)
  | connect =>
      exact kept.rebuiltSignalCall? (by decide) nested
        (fun inner isArray => nestsInCode_of_bindsOneArray safe nested isArray) isBuilt
  | disconnect | isConnected =>
      refine kept.rebuiltSignalCall? (by decide) nested (fun inner isArray => ?_) isBuilt
      obtain ⟨_, _, _, more, _, _, _, rfl, allowed, _⟩ := rebuiltSignalCall?_eq_some isBuilt
      cases more with
      | nil =>
          cases isArray
      | cons _ _ =>
          cases allowed
  | emit =>
      exact kept.emitCall? nested isBuilt
  | suspension =>
      exact kept.awaitExpression? nested isBuilt

/-- What a rule changes of a line if it leaves the calls alone that it cannot replace safely. -/
theorem exists_uplifted_of_applySafely
    {rule : UpliftRule}
    {above text : Text}
    {replacement : Replacement}
    (matched : rule.applySafely above text = some replacement) :
    ∃ marks code, Uplifted rule.callee rule.safeBuild text marks code replacement.lines := by
  have ofApply (noCare : ∀ arguments built, rule.isSafe arguments built = true)
      (matched : rule.apply above text = some replacement) :
      ∃ marks code, Uplifted rule.callee rule.safeBuild text marks code replacement.lines := by
    have sameBuild : rule.safeBuild = rule.build := by
      funext arguments
      cases built : rule.build arguments <;> simp [safeBuild, built, noCare]
    rw [sameBuild]
    exact exists_uplifted matched
  cases rule with
  | connect =>
      exact ⟨[], uplifted_replaceCalls ReplacesCalls.connect.calleeName matched⟩
  | suspension =>
      exact ⟨[], uplifted_replaceCalls ReplacesCalls.suspension.calleeName matched⟩
  | toolDirective | preloadStutter | exportedField | deferredInit | disconnect | isConnected | emit =>
      exact ofApply (fun _ _ => rfl) matched

end UpliftRule

/-! ## Lines -/

/-- The arguments of a call in nested code are nested. -/
theorem ArgumentsIn.nestsInCode
    {callee code : Text}
    {arguments : List Text}
    (inCode : ArgumentsIn callee code arguments)
    (legible : Scanning.code.isLegible code = true)
    {opened result : List Char}
    (nested : Scanning.code.nest opened code = some result) :
    ∀ argument ∈ arguments, NestsInCode argument := by
  rcases inCode with rfl | ⟨above, old, rest, pieces, rfl, outside, called, rfl⟩
  · exact nofun
  · exact nestsInCode_of_mem_argumentsOf (called.nestsInCode_of_mem legible outside nested)

/-- An annotation that is made of nested arguments is nested. -/
theorem ExportForm.IsMark.nestsInCode
    {arguments : List Text}
    (nested : ∀ argument ∈ arguments, NestsInCode argument)
    {mark : Text}
    (isMark : IsMark arguments mark) :
    NestsInCode mark := by
  refine NestsInCode.compositional.mark nested ?_ isMark
  have facts : ∀ constant ∈ markConstants, IsClosed constant ∧
      Scanning.code.isLegible constant = true ∧
        (Scanning.code.through constant).settle = .code ∧
          Scanning.code.nest [] constant = some [] := by
    decide
  intro constant member
  obtain ⟨closed, legible, settles, nests⟩ := facts constant member
  exact (NestsInCode.of_isClosed closed ⟨legible, settles⟩ nests).1

namespace LineParts

theorem nest_indented
    (text code : Text)
    (opened : List Char) :
    Scanning.code.nest opened ((ofText text).indentation ++ code) =
      Scanning.code.nest opened code := by
  have flat : (ofText text).indentation.all isFlatChar = true :=
    all_isFlatChar_of_plain (all_isPlainChar_indentation _)
  rw [Scanning.nest_append, Scanning.nest_of_flat _ opened flat,
    Scanning.through_code_of_quiet (all_isQuiet_indentation text)]
  rfl

/-- Indentation is neither here nor there for the nesting of a line. -/
theorem isWellNested_iff
    {text line code : Text}
    (isCode : (Scan.line none line).code = (ofText text).indentation ++ code) :
    IsWellNested line ↔
      (Scanning.code.through code).settle = .code ∧ Scanning.code.nest [] code = some [] := by
  have sameThrough : Scanning.code.through ((ofText text).indentation ++ code) =
      Scanning.code.through code := by
    rw [Scanning.through_append, Scanning.through_code_of_quiet (all_isQuiet_indentation text)]
  constructor
  · rintro ⟨closed, nested⟩
    rw [isCode] at closed nested
    rw [sameThrough] at closed
    rw [nest_indented] at nested
    exact ⟨closed, nested⟩
  · rintro ⟨closed, nested⟩
    rw [← sameThrough, ← isCode] at closed
    rw [← nest_indented text, ← isCode] at nested
    exact ⟨closed, nested⟩

end LineParts

/--
On a line with closed strings and with brackets that nest by kind, every rule
returns such lines only, if no mark stands alone in a string with three marks and
the rule replaces no call that it cannot replace safely.
-/
theorem UpliftRule.isWellNested_of_apply
    {rule : UpliftRule}
    {above text : Text}
    (pairs : Scanning.code.pairsMarks text = true)
    (safe : rule.applySafely above text = rule.apply above text)
    (wellNested : IsWellNested text)
    {replacement : Replacement}
    (matched : rule.apply above text = some replacement) :
    ∀ line ∈ replacement.lines, IsWellNested line := by
  obtain ⟨marks, code, shape, edits, annotates⟩ :=
    exists_uplifted_of_applySafely (safe.trans matched)
  have legible := LineParts.isLegible_code pairs
  obtain ⟨closed, nested⟩ := (LineParts.isWellNested_iff (LineParts.code_line text)).mp wellNested
  rw [shape]
  refine List.forall_mem_append.mpr ⟨List.forall_mem_map.mpr fun mark member => ?_, ?_⟩
  · obtain ⟨arguments, inCode, isMark⟩ := annotates mark member
    have isPart := isMark.isCodePart (inCode.good legible)
    have nests := isMark.nestsInCode (inCode.nestsInCode legible nested)
    have isCode := congrArg Scan.code (LineParts.scan_indented text isPart)
    exact (LineParts.isWellNested_iff isCode).mpr ⟨nests.reads.settles, nests.nests []⟩
  · have parts := buildsParts_safeBuild rule
    have alike := edits.scannedAlike parts legible
    have isCode := congrArg Scan.code (LineParts.scan_withCode legible alike)
    refine List.forall_mem_singleton.mpr ((LineParts.isWellNested_iff isCode).mpr ⟨?_, ?_⟩)
    · rw [alike.through]
      exact closed
    · exact edits.nest_eq parts (buildsNested_safeBuild rule) legible nested

/-- Arrays and dictionaries in all places of a connection, and strings with three marks. -/
theorem connection_with_one_array_isWellNested :
    let text := "f(connect(\"a\", t[0], 'b', [\x7b1: \"\"\"]\"\"\"\x7d, (2)], [3][0])) # (".toList
    IsWellNested text ∧ ∀ line ∈
      ["f(a.connect(t[0].b.bind(\x7b1: \"\"\"]\"\"\"\x7d, (2)), [3][0])) # (".toList],
        IsWellNested line := by
  have wellNested : IsWellNested
      "f(connect(\"a\", t[0], 'b', [\x7b1: \"\"\"]\"\"\"\x7d, (2)], [3][0])) # (".toList :=
    ⟨by decide +kernel, by decide +kernel⟩
  refine ⟨wellNested, ?_⟩
  exact @UpliftRule.isWellNested_of_apply .connect []
    "f(connect(\"a\", t[0], 'b', [\x7b1: \"\"\"]\"\"\"\x7d, (2)], [3][0])) # (".toList
    (by decide +kernel) (by decide +kernel) wellNested
    ⟨"f(a.connect(t[0].b.bind(\x7b1: \"\"\"]\"\"\"\x7d, (2)), [3][0])) # (".toList, [], 1⟩
    (by decide +kernel)

/-- A rule replaces a line that is well nested by one that is not. -/
structure LosesNesting
    (rule : UpliftRule)
    (text newText : Text) :
    Prop where
  wellNested : IsWellNested text
  replaced : rule.apply [] text = some { first := newText }
  lost : ¬IsWellNested newText

/--
Two arrays lose the bracket that closes the first one and the bracket that opens
the last one.  An awaited string takes over the marks behind it, be it empty in
code or not empty in a string with three marks.
-/
theorem nesting_is_lost :
    LosesNesting .connect
        "connect(\"a\", self, \"b\", [1] + [2])".toList "a.connect(b.bind(1] + [2))".toList ∧
      LosesNesting .suspension "yield(\"\")\"b\"".toList "await \"\"\"b\"".toList ∧
        LosesNesting .suspension
          "\"\"\"a\" yield(\"c\")\"\" d\"\"\"".toList "\"\"\"a\" await \"c\"\"\" d\"\"\"".toList := by
  refine ⟨⟨⟨?_, ?_⟩, ?_, fun ends => ?_⟩, ⟨⟨?_, ?_⟩, ?_, fun ends => ?_⟩,
    ⟨⟨?_, ?_⟩, ?_, fun ends => ?_⟩⟩
  · decide +kernel
  · decide +kernel
  · decide +kernel
  · exact absurd ends.nested (by decide +kernel)
  · decide +kernel
  · decide +kernel
  · decide +kernel
  · exact absurd ends.closed (by decide +kernel)
  · decide +kernel
  · decide +kernel
  · decide +kernel
  · exact absurd ends.closed (by decide +kernel)

end ScriptUplift
