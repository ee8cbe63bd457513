import Mathlib.Data.List.Basic
import Mathlib.Tactic.Common
import ScriptUplift.Proofs.ComposedTexts

namespace ScriptUplift

/-!
# Edits that the scan of a line does not notice

A part of a line that is entered in code, is read alike by the scan and by the
search for words, and is left in code with all of its brackets closed can take
the place of another such part: the scan is in the same state behind it, at the
same depth of brackets.  What rules build is such a part if the arguments of the
call are, so that edits leave the border of the comment, the open string and the
change of depth as they were.
-/

/-- A text that is entered in code is read alike, and left in code. -/
structure ReadsInCode
    (text : Text) :
    Prop where
  legible : Scanning.code.isLegible text = true
  settles : (Scanning.code.through text).settle = .code

namespace Scanning

theorem isProper_code : Scanning.code.IsProper :=
  trivial

/-- In code a character that means nothing to the scan leads on in code. -/
theorem isLegible_of_quiet_cons
    {scanning : Scanning}
    (proper : scanning.IsProper)
    (inCode : scanning.settle = .code)
    {character : Char}
    (quiet : isQuiet character = true)
    (rest : Text) :
    scanning.isLegible (character :: rest) = Scanning.code.isLegible rest := by
  have stepped : scanning.step character = .code :=
    (step_of_isQuiet proper quiet).trans inCode
  have pairs : scanning.pairs character = true := by
    rcases scanning with _ | _ | _ | _ | ⟨mark, triple | triple, twice | twice⟩ <;> first
      | rfl
      | cases inCode
  rw [isLegible, pairs, stepped]
  rfl

theorem isLegible_of_quiet
    {scanning : Scanning}
    (proper : scanning.IsProper)
    (inCode : scanning.settle = .code)
    {text : Text}
    (quiet : text.all isQuiet = true) :
    scanning.isLegible text = true := by
  induction text generalizing scanning with
  | nil =>
      rfl
  | cons character rest inductionHypothesis =>
      rw [List.all_cons, Bool.and_eq_true] at quiet
      rw [isLegible_of_quiet_cons proper inCode quiet.1]
      exact inductionHypothesis isProper_code rfl quiet.2

/-- Quiet characters lead from code to code. -/
theorem through_code_of_quiet
    {text : Text}
    (quiet : text.all isQuiet = true) :
    Scanning.code.through text = .code := by
  by_cases empty : text = []
  · rw [empty]
    rfl
  · exact through_of_quiet isProper_code empty quiet

theorem stepInCode_eq_code
    {character : Char}
    (noQuote : isQuoteMark character = false)
    (settles : (stepInCode character).settle = .code) :
    stepInCode character = .code := by
  unfold stepInCode at settles ⊢
  split at settles
  · cases settles
  · rename_i noHash
    rw [if_neg noHash, if_neg (by simp [noQuote])]

theorem stepInside_eq_code
    {mark character : Char}
    {triple : Bool}
    (notMark : character ≠ mark)
    (settles : (stepInside mark triple character).settle = .code) :
    stepInside mark triple character = .code := by
  rw [stepInside, if_neg notMark] at settles
  split at settles <;> cases settles

/-- Only the mark that ends a string leaves the scan behind two marks. -/
theorem step_eq_code
    {scanning : Scanning}
    (proper : scanning.IsProper)
    {character : Char}
    (noQuote : isQuoteMark character = false)
    (settles : (scanning.step character).settle = .code) :
    scanning.step character = .code := by
  have notMark {mark : Char} (quote : isQuoteMark mark = true) : character ≠ mark :=
    (ne_of_isQuoteMark quote noQuote).symm
  cases scanning with
  | code =>
      exact stepInCode_eq_code noQuote settles
  | comment =>
      cases settles
  | inside mark triple =>
      exact stepInside_eq_code (notMark proper) settles
  | escaped mark triple =>
      cases settles
  | behindMark mark triple twice =>
      cases twice with
      | false =>
          rw [step, if_neg (notMark proper)] at settles ⊢
          exact stepInside_eq_code (notMark proper) settles
      | true =>
          cases triple with
          | false =>
              rw [step, if_neg (notMark proper)] at settles ⊢
              exact stepInCode_eq_code noQuote settles
          | true =>
              rw [step, if_neg (notMark proper)] at settles ⊢
              exact stepInside_eq_code (notMark proper) settles

end Scanning

open Scanning (isQuiet all_isQuiet_of_plain isQuiet_of_isClosingBracket)

namespace ReadsInCode

theorem of_quiet
    {text : Text}
    (quiet : text.all isQuiet = true) :
    ReadsInCode text where
  legible := Scanning.isLegible_of_quiet Scanning.isProper_code rfl quiet
  settles := by
    rw [Scanning.through_code_of_quiet quiet]
    rfl

/-- Quiet characters around a text change nothing about how it is read. -/
theorem surround_iff
    {front back : Text}
    (frontQuiet : front.all isQuiet = true)
    (backQuiet : back.all isQuiet = true)
    {text : Text} :
    ReadsInCode (front ++ (text ++ back)) ↔ ReadsInCode text := by
  have proper : (Scanning.code.through text).IsProper :=
    Scanning.isProper_code.through text
  have sameSettle : (Scanning.code.through (front ++ (text ++ back))).settle =
      (Scanning.code.through text).settle := by
    rw [Scanning.through_append, Scanning.through_code_of_quiet frontQuiet, Scanning.through_append,
      Scanning.settle_through_of_quiet proper backQuiet]
  have frontLegible := Scanning.isLegible_of_quiet Scanning.isProper_code rfl frontQuiet
  constructor
  · rintro ⟨legible, settles⟩
    have behind := (Scanning.isLegible_append.mp legible).2
    rw [Scanning.through_code_of_quiet frontQuiet] at behind
    exact ⟨(Scanning.isLegible_append.mp behind).1, sameSettle.symm.trans settles⟩
  · rintro ⟨legible, settles⟩
    refine ⟨Scanning.isLegible_append.mpr ⟨frontLegible, ?_⟩, sameSettle.trans settles⟩
    rw [Scanning.through_code_of_quiet frontQuiet]
    exact Scanning.isLegible_append.mpr
      ⟨legible, Scanning.isLegible_of_quiet proper settles backQuiet⟩

theorem quiet_append
    {front text : Text}
    (frontQuiet : front.all isQuiet = true)
    (reads : ReadsInCode text) :
    ReadsInCode (front ++ text) := by
  simpa using (surround_iff frontQuiet (rfl : List.all [] isQuiet = true)).mpr reads

theorem trim
    {text : Text}
    (reads : ReadsInCode text) :
    ReadsInCode text.trim := by
  obtain ⟨front, back, frontBlank, backBlank, shape⟩ := text.exists_trim
  rw [shape] at reads
  exact (surround_iff (Scanning.all_isQuiet_of_blank frontBlank)
    (Scanning.all_isQuiet_of_blank backBlank)).mp reads

/-- A text can follow another one unless it begins with a string. -/
theorem append
    {first second : Text}
    (firstReads : ReadsInCode first)
    (secondReads : ReadsInCode second)
    (quiet : ∀ character ∈ second.head?, isQuiet character = true) :
    ReadsInCode (first ++ second) := by
  have proper : (Scanning.code.through first).IsProper :=
    Scanning.isProper_code.through first
  cases second with
  | nil =>
      rwa [List.append_nil]
  | cons character rest =>
      have isQuiet := quiet character rfl
      have legible := secondReads.legible
      have settles := secondReads.settles
      rw [Scanning.isLegible_of_quiet_cons Scanning.isProper_code rfl isQuiet] at legible
      rw [Scanning.through_cons, Scanning.step_of_isQuiet Scanning.isProper_code isQuiet] at settles
      constructor
      · rw [Scanning.isLegible_append,
          Scanning.isLegible_of_quiet_cons proper firstReads.settles isQuiet]
        exact ⟨firstReads.legible, legible⟩
      · rw [Scanning.through_append, Scanning.through_cons, Scanning.step_of_isQuiet proper isQuiet,
          firstReads.settles]
        exact settles

/-- What is read in code can be put together. -/
theorem compositional : Compositional ReadsInCode where
  flat flat := of_quiet (all_isQuiet_of_flat flat)
  prepend flat reads := quiet_append (all_isQuiet_of_flat flat) reads
  append firstReads secondReads quiet := firstReads.append secondReads quiet
  trim reads := reads.trim
  bracketed reads := (surround_iff (by decide : ['('].all isQuiet = true)
    (by decide : [')'].all isQuiet = true)).mpr reads

/-- What is closed, and read alike with a quiet character behind it, is left in code. -/
theorem of_isLegible
    {text : Text}
    (closed : IsClosed text)
    {character : Char}
    (quiet : isQuiet character = true)
    {rest : Text}
    (legible : Scanning.code.isLegible (text ++ character :: rest) = true) :
    ReadsInCode text ∧ Scanning.code.isLegible rest = true := by
  have settles := Scanning.settle_of_isLegible legible closed.through_eq
    (Scanning.isQuoteMark_of_isQuiet quiet)
  obtain ⟨own, behind⟩ := Scanning.isLegible_append.mp legible
  rw [Scanning.isLegible_of_quiet_cons (Scanning.isProper_code.through text) settles quiet] at behind
  exact ⟨⟨own, settles⟩, behind⟩

/-- The pieces of a list in brackets are read in code if the list is. -/
theorem of_joinWith
    {pieces : List Text}
    (closed : ∀ piece ∈ pieces, IsClosed piece)
    {closing : Char}
    (quiet : isQuiet closing = true)
    {rest : Text}
    (legible : Scanning.code.isLegible (Text.joinWith [','] pieces ++ closing :: rest) = true) :
    ∀ piece ∈ pieces, ReadsInCode piece := by
  induction pieces with
  | nil =>
      exact nofun
  | cons first others inductionHypothesis =>
      obtain ⟨firstClosed, othersClosed⟩ := List.forall_mem_cons.mp closed
      cases others with
      | nil =>
          rw [Text.joinWith_singleton] at legible
          exact List.forall_mem_singleton.mpr (of_isLegible firstClosed quiet legible).1
      | cons second others =>
          have shape : Text.joinWith [','] (first :: second :: others) ++ closing :: rest =
              first ++ ',' :: (Text.joinWith [','] (second :: others) ++ closing :: rest) := by
            simp [Text.joinWith_cons_cons]
          rw [shape] at legible
          obtain ⟨firstReads, below⟩ := of_isLegible firstClosed (by decide) legible
          exact List.forall_mem_cons.mpr ⟨firstReads, inductionHypothesis othersClosed below⟩

end ReadsInCode

/-! ## Depth -/

namespace Scanning

/-- How much a text changes the depth of brackets. -/
def change : Scanning → Text → Int
  | _, [] =>
      0
  | scanning, character :: rest =>
      bracketStep (scanning.shown character) + change (scanning.step character) rest

theorem change_append
    (scanning : Scanning)
    (first second : Text) :
    scanning.change (first ++ second) =
      scanning.change first + (scanning.through first).change second := by
  induction first generalizing scanning with
  | nil =>
      simp [change]
  | cons character rest inductionHypothesis =>
      rw [List.cons_append, change, change, inductionHypothesis, through_cons, Int.add_assoc]

/-- Where both readings agree they show the same. -/
theorem shown_eq
    {scanning : Scanning}
    (proper : scanning.IsProper)
    {character : Char}
    (pairs : scanning.pairs character = true)
    (notComment : scanning.step character ≠ .comment) :
    scanning.shown character = scanning.quoting.shown character := by
  unfold shown Quoting.shown
  by_cases quote : isQuoteMark character = true
  · simp [quote]
  · rw [Bool.not_eq_true] at quote
    by_cases outside : scanning.quoting = .outside
    · rw [if_pos ⟨settle_of_outside proper pairs notComment quote outside, quote⟩,
        if_pos ⟨outside, quote⟩]
    · rw [if_neg fun visible => outside (quoting_of_settle visible.1),
        if_neg fun visible => outside visible.1]

/-- A walk changes the depth from where it begins to where it ends. -/
theorem change_of_walk
    {scanning : Scanning}
    (proper : scanning.IsProper)
    {text : Text}
    (legible : scanning.isLegible text = true)
    {next : Quoting}
    {depth nextDepth : Nat}
    (walked : walk scanning.quoting depth text = some (next, nextDepth)) :
    scanning.change text = (nextDepth : Int) - depth := by
  induction text generalizing scanning depth with
  | nil =>
      obtain ⟨_, rfl⟩ := Prod.mk.inj (Option.some.inj walked)
      simp [change]
  | cons character rest inductionHypothesis =>
      obtain ⟨pairs, notComment, below⟩ := isLegible_cons.mp legible
      obtain ⟨⟨between, betweenDepth⟩, advanced, walkedRest⟩ := Option.bind_eq_some_iff.mp walked
      obtain ⟨rfl, isBetween, _⟩ := advance_eq_some advanced
      rw [← quoting_step proper pairs notComment] at walkedRest
      rw [change, inductionHypothesis (proper.step character) below walkedRest, isBetween,
        shown_eq proper pairs notComment]
      omega

end Scanning

/-! ## Parts of code -/

/-- A part of code that can take the place of another one. -/
structure IsCodePart
    (text : Text) :
    Prop where
  closed : IsClosed text
  reads : ReadsInCode text
  begins : ∃ first rest, text = first :: rest ∧ isQuiet first = true
  leaves : Scanning.code.through text = .code

namespace IsCodePart

/-- The scan is in code behind a part that does not end in a quotation mark. -/
theorem of_ends
    {text : Text}
    (closed : IsClosed text)
    (reads : ReadsInCode text)
    (begins : ∃ first rest, text = first :: rest ∧ isQuiet first = true)
    (ends : ∀ last ∈ text.getLast?, isQuoteMark last = false) :
    IsCodePart text := by
  refine ⟨closed, reads, begins, ?_⟩
  obtain ⟨first, rest, rfl, _⟩ := begins
  have settles := reads.settles
  have parts := List.dropLast_append_getLast (List.cons_ne_nil first rest)
  rw [← parts, Scanning.through_append] at settles ⊢
  exact Scanning.step_eq_code (Scanning.isProper_code.through _)
    (ends _ (List.getLast?_eq_getLast_of_ne_nil (List.cons_ne_nil first rest))) settles

variable {text : Text} (part : IsCodePart text) {scanning : Scanning}

include part

theorem isLegible
    (proper : scanning.IsProper)
    (inCode : scanning.settle = .code) :
    scanning.isLegible text = true := by
  obtain ⟨first, rest, rfl, quiet⟩ := part.begins
  rw [Scanning.isLegible_of_quiet_cons proper inCode quiet,
    ← Scanning.isLegible_of_quiet_cons Scanning.isProper_code rfl quiet]
  exact part.reads.legible

/-- The scan is in code behind a part, from wherever in code it comes. -/
theorem through_eq
    (proper : scanning.IsProper)
    (inCode : scanning.settle = .code) :
    scanning.through text = .code := by
  obtain ⟨first, rest, rfl, quiet⟩ := part.begins
  have leaves := part.leaves
  rw [Scanning.through_cons, Scanning.step_of_isQuiet Scanning.isProper_code quiet] at leaves
  rw [Scanning.through_cons, Scanning.step_of_isQuiet proper quiet, inCode]
  exact leaves

theorem change_eq
    (proper : scanning.IsProper)
    (inCode : scanning.settle = .code) :
    scanning.change text = 0 := by
  have closed := part.closed
  have walked : walk scanning.quoting 0 text = some (.outside, 0) := by
    rw [Scanning.quoting_of_settle inCode]
    exact closed
  simpa using Scanning.change_of_walk proper (part.isLegible proper inCode) walked

end IsCodePart

/-- Words are a part of code. -/
theorem IsWording.isCodePart
    {text : Text}
    (words : IsWording text) :
    IsCodePart text := by
  have quiet := all_isQuiet_of_plain words.plain
  have each := List.all_eq_true.mp quiet
  refine ⟨isClosed_of_plain words.plain, .of_quiet quiet, ?_, Scanning.through_code_of_quiet quiet⟩
  obtain ⟨first, rest, rfl⟩ := List.exists_cons_of_ne_nil words.nonempty
  exact ⟨first, rest, rfl, each first List.mem_cons_self⟩

/-- A list in brackets behind something plain is a part of code. -/
theorem IsCodePart.list
    {front separator : Text}
    (plain : front.all isPlainChar = true)
    (nonempty : front ≠ [])
    (separates : walk .outside 1 separator = some (.outside, 1))
    (someSeparator : separator ≠ [])
    (flat : separator.all isFlatChar = true)
    {closing : Char}
    (closes : isClosingBracket closing = true)
    {pieces : List Text}
    (each : ∀ piece ∈ pieces, IsClosed piece ∧ ReadsInCode piece) :
    IsCodePart (front ++ '(' :: (Text.joinWith separator pieces ++ [closing])) := by
  have frontQuiet := all_isQuiet_of_plain plain
  have closingQuiet := isQuiet_of_isClosingBracket closes
  have opening : (front ++ ['(']).all isQuiet = true := by
    rw [List.all_append, frontQuiet]
    rfl
  have back : [closing].all isQuiet = true := by
    rw [List.all_cons, closingQuiet]
    rfl
  have parts : front ++ '(' :: (Text.joinWith separator pieces ++ [closing]) =
      (front ++ ['(']) ++ (Text.joinWith separator pieces ++ [closing]) := by
    simp
  refine .of_ends ?_ ?_ ?_ ?_
  · exact (isClosed_of_plain plain).append (isClosed_of_bracketed (by decide) closes
      (walk_joinWith separates fun piece member => (each piece member).1))
  · rw [parts]
    exact (ReadsInCode.surround_iff opening back).mpr
      (ReadsInCode.compositional.joinWith someSeparator flat fun piece member => (each piece member).2)
  · obtain ⟨first, others, rfl⟩ := List.exists_cons_of_ne_nil nonempty
    exact ⟨first, _, rfl, List.all_eq_true.mp frontQuiet first List.mem_cons_self⟩
  · rw [parts, ← List.append_assoc]
    intro last isLast
    rw [List.getLast?_concat] at isLast
    obtain rfl := Option.some.inj isLast
    exact Scanning.isQuoteMark_of_isQuiet closingQuiet

namespace SpacedCall

variable {callee text : Text} {pieces : List Text} (called : SpacedCall callee pieces text)

include called

/-- A call begins with words and a bracket, and ends with a bracket. -/
theorem exists_front :
    ∃ (front : Text) (closing : Char), IsWording front ∧ isClosingBracket closing = true ∧
      text = front ++ '(' :: (Text.joinWith [','] pieces ++ [closing]) := by
  obtain ⟨gap, closing, indents, closes, shape⟩ := called.shape
  refine ⟨callee ++ gap, closing, called.named.append (all_isPlainChar_of_indent indents), closes, ?_⟩
  rw [shape, List.append_assoc]

/-- The scan enters a call in code where the search for words does. -/
theorem settle_of_isLegible
    {above rest : Text}
    (legible : Scanning.code.isLegible (above ++ (text ++ rest)) = true)
    (outside : Quoting.outside.through above = .outside) :
    (Scanning.code.through above).settle = .code := by
  obtain ⟨front, closing, words, _, rfl⟩ := called.exists_front
  obtain ⟨first, others, rfl, quiet⟩ := words.isCodePart.begins
  exact Scanning.settle_of_isLegible legible outside (Scanning.isQuoteMark_of_isQuiet quiet)

/-- The pieces of a call are read in code where the call is. -/
theorem readsInCode_of_mem
    {scanning : Scanning}
    (proper : scanning.IsProper)
    (inCode : scanning.settle = .code)
    {rest : Text}
    (legible : scanning.isLegible (text ++ rest) = true) :
    ∀ piece ∈ pieces, ReadsInCode piece := by
  obtain ⟨front, closing, words, closes, rfl⟩ := called.exists_front
  have opening : (front ++ ['(']).all isQuiet = true := by
    rw [List.all_append, all_isQuiet_of_plain words.plain]
    rfl
  have parts : (front ++ '(' :: (Text.joinWith [','] pieces ++ [closing])) ++ rest =
      (front ++ ['(']) ++ (Text.joinWith [','] pieces ++ closing :: rest) := by
    simp
  rw [parts, Scanning.isLegible_append,
    Scanning.through_of_quiet proper (by simp) opening, inCode] at legible
  exact ReadsInCode.of_joinWith called.closed (isQuiet_of_isClosingBracket closes) legible.2

/-- A call with pieces that are read in code is a part of code. -/
theorem isCodePart
    (reads : ∀ piece ∈ pieces, ReadsInCode piece) :
    IsCodePart text := by
  obtain ⟨front, closing, words, closes, rfl⟩ := called.exists_front
  exact .list words.plain words.nonempty rfl (by simp) (by decide) closes
    fun piece member => ⟨called.closed piece member, reads piece member⟩

end SpacedCall

/-- From arguments that are closed and read in code only parts of code are built. -/
def BuildsParts
    (build : List Text → Option Text) :
    Prop :=
  ∀ arguments text, (∀ argument ∈ arguments, IsClosed argument ∧ ReadsInCode argument) →
    build arguments = some text → IsCodePart text

theorem closed_and_reads_of_mem_argumentsOf
    {pieces : List Text}
    (closed : ∀ piece ∈ pieces, IsClosed piece)
    (reads : ∀ piece ∈ pieces, ReadsInCode piece) :
    ∀ argument ∈ argumentsOf pieces, IsClosed argument ∧ ReadsInCode argument := by
  intro argument member
  refine ⟨isClosed_of_mem_argumentsOf closed member, ?_⟩
  obtain ⟨piece, isPiece, rfl⟩ := exists_of_mem_argumentsOf member
  exact (reads piece isPiece).trim

/-! ## Edits -/

section

variable {callee : Text} {build : List Text → Option Text} {code result : Text}

/-- An edit puts one part of code in the place of another. -/
theorem Edit.exists_parts
    (edit : Edit callee build code result)
    (builds : BuildsParts build)
    (legible : Scanning.code.isLegible code = true) :
    ∃ above old new rest, code = above ++ (old ++ rest) ∧ result = above ++ (new ++ rest) ∧
      (Scanning.code.through above).settle = .code ∧ IsCodePart old ∧ IsCodePart new := by
  cases edit with
  | @words above old new rest outside oldWords newWords _ =>
      have part := oldWords.isCodePart
      obtain ⟨first, others, rfl, quiet⟩ := part.begins
      have inCode : (Scanning.code.through above).settle = .code :=
        Scanning.settle_of_isLegible legible outside (Scanning.isQuoteMark_of_isQuiet quiet)
      exact ⟨above, _, new, rest, rfl, rfl, inCode, part, newWords.isCodePart⟩
  | @call above old new rest pieces outside called built =>
      have inCode := called.settle_of_isLegible legible outside
      have reads := called.readsInCode_of_mem (Scanning.isProper_code.through above) inCode
        (Scanning.isLegible_append.mp legible).2
      exact ⟨above, old, new, rest, rfl, rfl, inCode, called.isCodePart reads,
        builds _ _ (closed_and_reads_of_mem_argumentsOf called.closed reads) built⟩

/-- Code that the scan takes for the same, as far as anything behind it is concerned. -/
structure ScannedAlike
    (code result : Text) :
    Prop where
  legible : Scanning.code.isLegible result = true
  through : Scanning.code.through result = Scanning.code.through code
  change : Scanning.code.change result = Scanning.code.change code

theorem Edit.scannedAlike
    (edit : Edit callee build code result)
    (builds : BuildsParts build)
    (legible : Scanning.code.isLegible code = true) :
    ScannedAlike code result := by
  obtain ⟨above, old, new, rest, rfl, rfl, inCode, oldPart, newPart⟩ :=
    edit.exists_parts builds legible
  have proper := Scanning.isProper_code.through above
  have oldThrough := oldPart.through_eq proper inCode
  have newThrough := newPart.through_eq proper inCode
  obtain ⟨aboveLegible, below⟩ := Scanning.isLegible_append.mp legible
  have restLegible := (Scanning.isLegible_append.mp below).2
  rw [oldThrough] at restLegible
  constructor
  · rw [Scanning.isLegible_append, Scanning.isLegible_append, newThrough]
    exact ⟨aboveLegible, newPart.isLegible proper inCode, restLegible⟩
  · simp only [Scanning.through_append, oldThrough, newThrough]
  · simp only [Scanning.change_append, oldThrough, newThrough, oldPart.change_eq proper inCode,
      newPart.change_eq proper inCode]

theorem Edits.scannedAlike
    (edits : Edits callee build code result)
    (builds : BuildsParts build)
    (legible : Scanning.code.isLegible code = true) :
    ScannedAlike code result := by
  induction edits with
  | refl =>
      exact ⟨legible, rfl, rfl⟩
  | tail _ edit inductionHypothesis =>
      have last := edit.scannedAlike builds inductionHypothesis.legible
      exact ⟨last.legible, last.through.trans inductionHypothesis.through,
        last.change.trans inductionHypothesis.change⟩

end

/-! ## Lines -/

/-- What is scanned in front adds its characters and its change of depth. -/
theorem Scanning.scan_append
    {scanning : Scanning}
    {front : Text}
    (legible : scanning.isLegible front = true)
    (rest : Text) :
    scanning.scan (front ++ rest) =
      { (scanning.through front).scan rest with
        code := front ++ ((scanning.through front).scan rest).code
        delta := scanning.change front + ((scanning.through front).scan rest).delta } := by
  induction front generalizing scanning with
  | nil =>
      simp [change]
  | cons character others inductionHypothesis =>
      obtain ⟨_, notComment, below⟩ := isLegible_cons.mp legible
      rw [List.cons_append, scan_step rfl notComment, inductionHypothesis below]
      simp [Scan.cons, change, Int.add_assoc]

theorem Scanning.isLegible_quiet_append
    {front : Text}
    (quiet : front.all isQuiet = true)
    (code : Text) :
    Scanning.code.isLegible (front ++ code) = Scanning.code.isLegible code := by
  rw [Bool.eq_iff_iff, isLegible_append, through_code_of_quiet quiet]
  exact and_iff_right (isLegible_of_quiet isProper_code rfl quiet)

/-- A part of code that stands alone on a line, behind plain text, is all there is to it. -/
theorem Scan.line_plain_append
    {front part : Text}
    (plain : front.all isPlainChar = true)
    (isPart : IsCodePart part) :
    Scan.line none (front ++ part) = ⟨front ++ part, [], 0, none⟩ := by
  have quiet := all_isQuiet_of_plain plain
  have legible := (Scanning.isLegible_quiet_append quiet part).trans isPart.reads.legible
  have closed : IsClosed (front ++ part) :=
    (isClosed_of_plain plain).append isPart.closed
  have inCode : Scanning.code.through (front ++ part) = .code := by
    rw [Scanning.through_append, Scanning.through_code_of_quiet quiet,
      isPart.through_eq Scanning.isProper_code rfl]
  have noChange := Scanning.change_of_walk Scanning.isProper_code legible closed
  have scan := Scanning.scan_append legible []
  rw [List.append_nil, inCode, noChange] at scan
  rw [Scanning.scan_eq]
  refine scan.trans ?_
  simp [Scanning.scan, Scanning.openString, Scanning.settle]

namespace LineParts

theorem code_line
    (text : Text) :
    (Scan.line none text).code = (ofText text).indentation ++ (ofText text).code :=
  (Text.indentation_append_dropIndentation _).symm

theorem all_isQuiet_indentation
    (text : Text) :
    (ofText text).indentation.all isQuiet = true :=
  all_isQuiet_of_plain (all_isPlainChar_indentation _)

/-- Indentation in front of code leaves it as it is. -/
theorem isLegible_indented
    (text code : Text) :
    Scanning.code.isLegible ((ofText text).indentation ++ code) = Scanning.code.isLegible code :=
  Scanning.isLegible_quiet_append (all_isQuiet_indentation text) code

theorem isLegible_code
    {text : Text}
    (pairs : Scanning.code.pairsMarks text = true) :
    Scanning.code.isLegible (ofText text).code = true := by
  rw [← isLegible_indented text, ← code_line]
  exact ScriptUplift.isLegible_code pairs

/-- A line with code that the scan takes for the same differs from the line in its code only. -/
theorem scan_withCode
    {text code : Text}
    (legible : Scanning.code.isLegible (ofText text).code = true)
    (alike : ScannedAlike (ofText text).code code) :
    Scan.line none ((ofText text).withCode code) =
      { Scan.line none text with code := (ofText text).indentation ++ code } := by
  have quiet := all_isQuiet_indentation text
  have sameThrough : Scanning.code.through ((ofText text).indentation ++ code) =
      Scanning.code.through ((ofText text).indentation ++ (ofText text).code) := by
    simp only [Scanning.through_append, Scanning.through_code_of_quiet quiet, alike.through]
  have sameChange : Scanning.code.change ((ofText text).indentation ++ code) =
      Scanning.code.change ((ofText text).indentation ++ (ofText text).code) := by
    simp only [Scanning.change_append, Scanning.through_code_of_quiet quiet, alike.change]
  have whole : Scan.line none text =
      Scanning.code.scan (((ofText text).indentation ++ (ofText text).code) ++
        (ofText text).comment) := by
    conv_lhs => rw [← withCode_code text, Scanning.scan_eq]
    rfl
  have newLine : Scan.line none ((ofText text).withCode code) =
      Scanning.code.scan (((ofText text).indentation ++ code) ++ (ofText text).comment) := by
    rw [Scanning.scan_eq]
    rfl
  have oldLegible := (isLegible_indented text (ofText text).code).trans legible
  have newLegible := (isLegible_indented text code).trans alike.legible
  rw [Scanning.scan_append oldLegible] at whole
  rw [newLine, Scanning.scan_append newLegible, sameThrough, sameChange]
  have noCode : ((Scanning.code.through ((ofText text).indentation ++ (ofText text).code)).scan
      (ofText text).comment).code = [] := by
    have code := congrArg Scan.code whole
    rw [code_line] at code
    simpa using code
  rw [whole, noCode, List.append_nil]

theorem scan_indented
    (text : Text)
    {part : Text}
    (isPart : IsCodePart part) :
    Scan.line none ((ofText text).indentation ++ part) =
      ⟨(ofText text).indentation ++ part, [], 0, none⟩ :=
  Scan.line_plain_append (all_isPlainChar_indentation _) isPart

end LineParts

/-! ## Builders -/

/-- What begins with a letter and ends in a bracket is a part of code if it is read in code. -/
theorem Operand.isCodePart
    {text : Text}
    (operand : Operand text)
    (reads : ReadsInCode text)
    (ends : text.getLast? = some ')') :
    IsCodePart text := by
  refine .of_ends operand.closed reads ?_ ?_
  · obtain ⟨first, rest, shape, letter⟩ := operand.exists_head
    exact ⟨first, rest, shape,
      Scanning.isQuiet_of_isPlainChar (isPlainChar_of_isIdentifierChar letter)⟩
  · intro last isLast
    rw [ends] at isLast
    obtain rfl := Option.some.inj isLast
    decide

theorem IsSignalForm.getLast?_eq
    {text : Text}
    (form : IsSignalForm text) :
    text.getLast? = some ')' := by
  obtain ⟨signal, inner, _, _, rfl⟩ := form
  rw [← List.cons_append, ← List.append_assoc, List.getLast?_concat]

theorem buildsParts_rebuiltSignalCall?
    {method : String}
    (plain : method.toList.all isPlainChar = true)
    (extras : Bool) :
    BuildsParts (rebuiltSignalCall? method extras) := by
  intro arguments text good built
  have operand := operand_rebuiltSignalCall? plain (fun _ member => (good _ member).1) built
  refine operand.isCodePart ?_ (isSignalForm_rebuiltSignalCall? built).getLast?_eq
  refine ReadsInCode.compositional.rebuiltSignalCall? plain (fun _ member => (good _ member).2)
    (fun inner isArray => ?_) built
  exact (ReadsInCode.surround_iff (by decide : ['['].all isQuiet = true)
    (by decide : [']'].all isQuiet = true)).mp (good _ (List.mem_of_getElem? isArray)).2

theorem buildsParts_emitCall? : BuildsParts emitCall? := by
  intro arguments text good built
  have operand := operand_emitCall? (fun _ member => (good _ member).1) built
  exact operand.isCodePart
    (ReadsInCode.compositional.emitCall? (fun _ member => (good _ member).2) built)
    (isSignalForm_emitCall? built).getLast?_eq

theorem buildsParts_export : BuildsParts LegacyExport.build := by
  intro arguments text _ built
  obtain rfl := Option.some.inj built
  exact IsWording.isCodePart ⟨by decide, by decide⟩

/-- All rules but the one for suspensions build parts of code. -/
theorem UpliftRule.buildsParts
    {rule : UpliftRule}
    (notSuspension : rule ≠ .suspension) :
    BuildsParts rule.build := by
  cases rule with
  | toolDirective | preloadStutter | deferredInit =>
      exact fun _ _ _ built => nomatch built
  | exportedField =>
      exact buildsParts_export
  | connect | disconnect | isConnected =>
      exact buildsParts_rebuiltSignalCall? (by decide) _
  | emit =>
      exact buildsParts_emitCall?
  | suspension =>
      exact absurd rfl notSuspension

/-- The arguments of a call on a line are closed and read in code. -/
theorem ArgumentsIn.good
    {callee code : Text}
    {arguments : List Text}
    (inCode : ArgumentsIn callee code arguments)
    (legible : Scanning.code.isLegible code = true) :
    ∀ argument ∈ arguments, IsClosed argument ∧ ReadsInCode argument := by
  rcases inCode with rfl | ⟨above, old, rest, pieces, rfl, outside, called, rfl⟩
  · exact nofun
  · have settles := called.settle_of_isLegible legible outside
    have reads := called.readsInCode_of_mem (Scanning.isProper_code.through above) settles
      (Scanning.isLegible_append.mp legible).2
    exact closed_and_reads_of_mem_argumentsOf called.closed reads

theorem ExportForm.IsMarkName.isCodePart
    {name : Text}
    (named : IsMarkName name) :
    IsCodePart name := by
  have quiet := all_isQuiet_of_plain named.plain
  obtain ⟨rest, rfl⟩ := List.head?_eq_some_iff.mp named.sign
  exact ⟨isClosed_of_plain named.plain, .of_quiet quiet, ⟨'@', rest, rfl, by decide⟩,
    Scanning.through_code_of_quiet quiet⟩

/-- An annotation that is made of arguments is a part of code. -/
theorem ExportForm.IsMark.isCodePart
    {arguments : List Text}
    (good : ∀ argument ∈ arguments, IsClosed argument ∧ ReadsInCode argument)
    {mark : Text}
    (isMark : IsMark arguments mark) :
    IsCodePart mark := by
  cases isMark with
  | bare named =>
      exact named.isCodePart
  | @list name elements named taken =>
      have constants : ∀ constant ∈ markConstants, IsClosed constant ∧ ReadsInCode constant := by
        have closed : ∀ constant ∈ markConstants, IsClosed constant := by
          decide
        have legible : ∀ constant ∈ markConstants, Scanning.code.isLegible constant = true ∧
            (Scanning.code.through constant).settle = .code := by
          decide
        exact fun constant member => ⟨closed constant member, (legible constant member).1,
          (legible constant member).2⟩
      have shape : withArguments name elements =
          name.toList ++ '(' :: (Text.joinWith ", ".toList elements ++ [')']) := by
        simp [withArguments]
      have someName : name.toList ≠ [] := by
        intro noName
        have sign := named.sign
        rw [noName] at sign
        cases sign
      rw [shape]
      exact .list named.plain someName (by decide) (by simp) (by decide) (by decide)
        fun element member => (taken element member).elim (good element) (constants element)

end ScriptUplift
