import Mathlib.Data.List.Basic
import Mathlib.Data.List.Infix
import Mathlib.Tactic.Common
import ScriptUplift.Source

namespace ScriptUplift

/-!
# Reading a file and writing it back

A file is read as lines and remembers one line break for all of them.  Writing
back what was read gives the content again unless it mixes both kinds of line
break, and then it never does.
-/

namespace Source

/-- Content without the byte order mark. -/
def unmarked
    (content : Text) :
    Text :=
  if content.startsWith [byteOrderMarkChar] then content.drop 1 else content

/-- Content without byte order mark, every line break a single line feed. -/
def bodyOf
    (content : Text) :
    Text :=
  if hasPairedEnding (unmarked content) then joinLineEndings (unmarked content)
  else unmarked content

/-- The texts content is read as. -/
def textsOf
    (content : Text) :
    List Text :=
  if bodyOf content = [] then []
  else
    Text.splitAt '\n'
      (if (bodyOf content).endsWith ['\n'] then (bodyOf content).dropLast else bodyOf content)

/-- Content is read as its numbered texts. -/
theorem ofContent_lines
    (path : String)
    (content : Text) :
    (ofContent path content).lines = numberLines 1 (textsOf content) := by
  have noLines : numberLines 1 [] = [] := rfl
  unfold textsOf
  rw [apply_ite (numberLines 1), noLines]
  rfl

@[simp] theorem texts_numberLines
    (start : Nat)
    (texts : List Text) :
    (numberLines start texts).map (·.text) = texts := by
  induction texts generalizing start with
  | nil =>
      rfl
  | cons text rest inductionHypothesis =>
      simp [numberLines, Line.ofText, inductionHypothesis]

theorem numbers_numberLines
    (start : Nat)
    (texts : List Text) :
    (numberLines start texts).map (·.number) = List.range' start texts.length := by
  induction texts generalizing start with
  | nil =>
      rfl
  | cons text rest inductionHypothesis =>
      simp [numberLines, Line.ofText, inductionHypothesis, List.range'_succ]

/-- The lines of a file that is read are numbered from one to their count. -/
theorem numbers_ofContent
    (path : String)
    (content : Text) :
    (ofContent path content).lines.map (·.number) =
      List.range' 1 (ofContent path content).lines.length := by
  have sameLength : (numberLines 1 (textsOf content)).length = (textsOf content).length := by
    have sameTexts := congrArg List.length (texts_numberLines 1 (textsOf content))
    rwa [List.length_map] at sameTexts
  rw [ofContent_lines, numbers_numberLines, sameLength]

theorem number_ne_zero_of_mem_ofContent
    {path : String}
    {content : Text}
    {line : Line}
    (member : line ∈ (ofContent path content).lines) :
    line.number ≠ 0 := by
  have among := List.mem_map_of_mem (f := Line.number) member
  rw [numbers_ofContent, List.mem_range'_1] at among
  omega

/-- Whether a line feed without a carriage return before it occurs. -/
def hasBareEnding : Text → Bool
  | '\r' :: '\n' :: rest =>
      hasBareEnding rest
  | character :: rest =>
      character == '\n' || hasBareEnding rest
  | [] =>
      false

/-- Whether content uses both kinds of line break. -/
def mixesEndings
    (content : Text) :
    Bool :=
  hasPairedEnding (unmarked content) && hasBareEnding (unmarked content)

/-- Write every line feed with a carriage return before it. -/
def pairEndings
    (text : Text) :
    Text :=
  text.flatMap fun character => if character = '\n' then ['\r', '\n'] else [character]

/-- Pairing undoes joining exactly for texts whose line feeds were all paired. -/
theorem pairEndings_joinLineEndings_iff
    (text : Text) :
    pairEndings (joinLineEndings text) = text ↔ hasBareEnding text = false := by
  fun_induction joinLineEndings text with
  | case1 rest inductionHypothesis =>
      simpa [pairEndings, hasBareEnding] using inductionHypothesis
  | case2 character rest notPair inductionHypothesis =>
      have bare :
          hasBareEnding (character :: rest) = (character == '\n' || hasBareEnding rest) := by
        rw [hasBareEnding.eq_2]
        exact notPair
      by_cases feed : character = '\n'
      · subst feed
        simp [pairEndings, bare]
      · have paired :
            pairEndings (character :: joinLineEndings rest) =
              character :: pairEndings (joinLineEndings rest) := by
          simp [pairEndings, feed]
        rw [paired, bare, List.cons.injEq]
        simpa [feed] using inductionHypothesis
  | case3 =>
      simp [pairEndings, hasBareEnding]

/-- Joining pieces with a pair is joining them with a line feed and pairing it. -/
theorem joinWith_pair_splitAt
    (text : Text) :
    Text.joinWith ['\r', '\n'] (Text.splitAt '\n' text) = pairEndings text := by
  induction text with
  | nil =>
      rfl
  | cons character rest inductionHypothesis =>
      obtain ⟨piece, pieces, cut⟩ :=
        List.exists_cons_of_ne_nil (Text.splitAt_ne_nil '\n' rest)
      rw [cut] at inductionHypothesis
      by_cases feed : character = '\n'
      · subst feed
        have shape : pairEndings ('\n' :: rest) = '\r' :: '\n' :: pairEndings rest := by
          simp [pairEndings]
        rw [shape, ← inductionHypothesis]
        simp [Text.splitAt, cut, Text.joinWith, List.intercalate]
      · have shape : pairEndings (character :: rest) = character :: pairEndings rest := by
          simp [pairEndings, feed]
        rw [shape, ← inductionHypothesis]
        cases pieces <;>
          simp [Text.splitAt, feed, cut, Text.joinWith, List.intercalate]

/-- The text of lines with one kind of line break between them and perhaps at the end. -/
def writtenBody
    (lineBreak : Text)
    (body : Text) :
    Text :=
  if body = [] then []
  else
    Text.joinWith lineBreak
        (Text.splitAt '\n' (if body.endsWith ['\n'] then body.dropLast else body)) ++
      (if body.endsWith ['\n'] then lineBreak else [])

theorem dropLast_append_feed
    {body : Text}
    (ends : body.endsWith ['\n'] = true) :
    body.dropLast ++ ['\n'] = body := by
  obtain ⟨before, shape⟩ := List.isSuffixOf_iff_suffix.mp ends
  rw [← shape, List.dropLast_concat]

/-- Lines with line feeds between them are written as the text they were cut from. -/
theorem writtenBody_feed
    (body : Text) :
    writtenBody ['\n'] body = body := by
  unfold writtenBody
  split
  · rename_i empty
    exact empty.symm
  · rw [Text.joinWith_splitAt]
    split
    · rename_i ends
      exact dropLast_append_feed ends
    · exact List.append_nil body

/-- Lines with pairs between them are written as the text they were cut from, paired. -/
theorem writtenBody_pair
    (body : Text) :
    writtenBody ['\r', '\n'] body = pairEndings body := by
  unfold writtenBody
  split
  · rename_i empty
    rw [empty]
    rfl
  · rw [joinWith_pair_splitAt]
    split
    · rename_i ends
      have last : pairEndings ['\n'] = ['\r', '\n'] := by
        decide
      rw [← last]
      unfold pairEndings
      rw [← List.flatMap_append, dropLast_append_feed ends]
    · exact List.append_nil _

/-- What is written depends on the texts, the line break, the last line break and the mark. -/
theorem render_eq
    (source : Source) :
    source.render =
      (if source.byteOrderMark then [byteOrderMarkChar] else []) ++
        (if source.texts = [] then []
         else
          Text.joinWith source.lineBreak source.texts ++
            (if source.trailingNewline then source.lineBreak else [])) := by
  have noTexts : source.lines.isEmpty = true ↔ source.texts = [] := by
    unfold texts
    rw [List.isEmpty_iff, List.map_eq_nil_iff]
  unfold render
  simp only [noTexts]
  cases source.byteOrderMark <;> rfl

/-- A file that was read is written with its mark and its body. -/
theorem render_ofContent
    (path : String)
    (content : Text) :
    (ofContent path content).render =
      (if content.startsWith [byteOrderMarkChar] then [byteOrderMarkChar] else []) ++
        writtenBody
          (if hasPairedEnding (unmarked content) then ['\r', '\n'] else ['\n'])
          (bodyOf content) := by
  have sameTexts : (ofContent path content).texts = textsOf content := by
    unfold texts
    rw [ofContent_lines, texts_numberLines]
  have sameBreak :
      (ofContent path content).lineBreak =
        if hasPairedEnding (unmarked content) then ['\r', '\n'] else ['\n'] :=
    rfl
  have sameEnd :
      (ofContent path content).trailingNewline = (bodyOf content).endsWith ['\n'] :=
    rfl
  have sameMark :
      (ofContent path content).byteOrderMark = content.startsWith [byteOrderMarkChar] :=
    rfl
  rw [render_eq, sameTexts, sameBreak, sameEnd, sameMark]
  congr 1
  unfold textsOf writtenBody
  by_cases empty : bodyOf content = []
  · simp [empty]
  · simp [empty, Text.splitAt_ne_nil]

/-- The mark of content and what follows it are the content. -/
theorem mark_append_unmarked
    (content : Text) :
    (if content.startsWith [byteOrderMarkChar] then [byteOrderMarkChar] else []) ++
        unmarked content =
      content := by
  unfold unmarked
  split
  · rename_i starts
    obtain ⟨rest, shape⟩ := List.isPrefixOf_iff_prefix.mp starts
    rw [← shape]
    rfl
  · rfl

/-- Writing back what was read gives the content exactly when it does not mix line breaks. -/
theorem render_ofContent_eq_iff
    (path : String)
    (content : Text) :
    (ofContent path content).render = content ↔ mixesEndings content = false := by
  rw [render_ofContent]
  have cancel (body : Text) :
      (if content.startsWith [byteOrderMarkChar] then [byteOrderMarkChar] else []) ++ body =
          content ↔
        body = unmarked content := by
    constructor
    · intro whole
      exact List.append_cancel_left (whole.trans (mark_append_unmarked content).symm)
    · rintro rfl
      exact mark_append_unmarked content
  rw [cancel]
  unfold bodyOf mixesEndings
  cases paired : hasPairedEnding (unmarked content) with
  | false =>
      simp [writtenBody_feed]
  | true =>
      simpa [writtenBody_pair] using pairEndings_joinLineEndings_iff (unmarked content)

/-- Content with every line break written as a carriage return and a line feed. -/
def withPairedEndings
    (content : Text) :
    Text :=
  (if content.startsWith [byteOrderMarkChar] then [byteOrderMarkChar] else []) ++
    pairEndings (joinLineEndings (unmarked content))

/--
Content that is read and written comes back as it was, byte order mark, blank
lines and the end of the last line included; only content that mixes both kinds
of line break comes back otherwise, with every line break paired.
-/
theorem content_comes_back_unless_breaks_mix
    (path : String)
    (content : Text) :
    (ofContent path content).render =
        (if mixesEndings content then withPairedEndings content else content) ∧
      ((ofContent path content).render = content ↔ mixesEndings content = false) := by
  refine ⟨?_, render_ofContent_eq_iff path content⟩
  cases mixed : mixesEndings content with
  | false =>
      rw [if_neg Bool.false_ne_true]
      exact (render_ofContent_eq_iff path content).mpr mixed
  | true =>
      have paired : hasPairedEnding (unmarked content) = true := by
        unfold mixesEndings at mixed
        exact (Bool.and_eq_true_iff.mp mixed).1
      rw [render_ofContent, if_pos rfl, if_pos paired, writtenBody_pair]
      unfold withPairedEndings bodyOf
      rw [if_pos paired]

/-- A bare line feed below a pair comes back as a pair. -/
theorem bare_break_comes_back_paired :
    let content := "a\r\nb\n".toList
    (ofContent "x.gd" content).render = "a\r\nb\r\n".toList ∧
      (ofContent "x.gd" content).render ≠ content := by
  decide

end Source

end ScriptUplift
