import Mathlib.Tactic.Common
import ScriptUplift.Proofs.EditedLines

namespace ScriptUplift

/-!
# Hints that are carried over

Numerals hold plain characters only, and a string literal without escapes is
left where it is closed.  So both are closed pieces that are read in code, and
they can stand between the commas of any list.
-/

namespace Numeral

theorem all_isPlainChar_of_dropSign
    {text : Text}
    (plain : (dropSign text).all isPlainChar = true) :
    text.all isPlainChar = true := by
  have signs : isPlainChar '+' = true ∧ isPlainChar '-' = true := by
    decide
  unfold dropSign at plain
  split at plain
  · rw [List.all_cons, plain, signs.1, Bool.and_self]
  · rw [List.all_cons, plain, signs.2, Bool.and_self]
  · exact plain

/-- The words for special values are words in either case of their letters. -/
theorem all_isPlainChar_of_isSpecial
    {text : Text}
    (special : isSpecial text = true) :
    text.all isPlainChar = true := by
  have ofWord {word : String}
      (noMark : codeMarks.any (fun mark => word.toList.contains mark.toLower) = false)
      {text : Text} (isWord : isWord word text = true) : text.all isPlainChar = true := by
    refine all_isPlainChar_of_class noMark (List.all_eq_true.mpr fun character member => ?_)
    rw [List.contains_iff_mem, ← beq_iff_eq.mp isWord]
    exact List.mem_map_of_mem member
  simp only [isSpecial, Bool.or_eq_true] at special
  rcases special with (short | long) | undefined
  · exact all_isPlainChar_of_dropSign (ofWord (by decide) short)
  · exact all_isPlainChar_of_dropSign (ofWord (by decide) long)
  · exact ofWord (by decide) undefined

/-- A mantissa is plain, so that the numeral is when the exponent is. -/
theorem all_isPlainChar_of_mantissa
    {hexadecimal : Bool}
    {text : Text}
    (restPlain : (Mantissa.read hexadecimal text).rest.all isPlainChar = true) :
    text.all isPlainChar = true := by
  have part (text : Text) : (text.takeWhile fun character =>
      isDigitOf hexadecimal character || character == '_').all isPlainChar = true := by
    refine all_isPlainChar_of_class ?_ List.all_takeWhile
    cases hexadecimal <;> decide
  have point : isPlainChar '.' = true := by
    decide
  have whole {text rest : Text} (isRest : text.dropWhile (fun character =>
      isDigitOf hexadecimal character || character == '_') = rest)
      (plain : rest.all isPlainChar = true) : text.all isPlainChar = true := by
    rw [← List.takeWhile_append_dropWhile (l := text) (p := fun character =>
      isDigitOf hexadecimal character || character == '_'), isRest, List.all_append, part, plain,
      Bool.and_self]
  unfold Mantissa.read at restPlain
  dsimp only at restPlain
  split at restPlain
  · rename_i tail behind
    refine whole behind ?_
    rw [List.all_cons, point, whole rfl restPlain, Bool.and_self]
  · exact whole rfl restPlain

theorem all_isPlainChar_of_exponent?
    {letter : Char}
    (noMark : codeMarks.any (·.toLower == letter) = false)
    {text : Text}
    {exponent : Int}
    (read : exponent? letter text = some exponent) :
    text.all isPlainChar = true := by
  unfold exponent? at read
  split at read
  · rfl
  · rename_i mark rest
    split at read
    · rename_i isLetter
      obtain ⟨size, isSize, _⟩ := Option.map_eq_some_iff.mp read
      have markPlain : isPlainChar mark = true :=
        isPlainChar_of_class noMark (beq_iff_eq.mpr isLetter)
      unfold exponentDigits? at isSize
      split at isSize
      · rename_i digits
        have digitsPlain : (dropSign rest).all isPlainChar = true :=
          all_isPlainChar_of_class (by decide) (Bool.and_eq_true_iff.mp digits).2
        rw [List.all_cons, markPlain, all_isPlainChar_of_dropSign digitsPlain, Bool.and_self]
      · cases isSize
    · cases read

theorem all_isPlainChar_of_isFiniteNumeral
    {text : Text}
    (numeral : isFiniteNumeral text = true) :
    text.all isPlainChar = true := by
  unfold isFiniteNumeral at numeral
  extract_lets hexadecimal body mantissa at numeral
  have known := (Bool.and_eq_true_iff.mp numeral).2
  split at known
  · cases known
  · rename_i exponent read
    by_cases isHex : hexadecimal = true
    · have isBody : body = text.drop 2 := if_pos isHex
      have noMark : codeMarks.any (·.toLower == 'p') = false ∧
          codeMarks.any (·.toLower == 'x') = false ∧ isPlainChar '0' = true := by
        decide
      rw [if_pos isHex] at read
      have bodyPlain := all_isPlainChar_of_mantissa (all_isPlainChar_of_exponent? noMark.1 read)
      have headPlain : (text.take 2).all isPlainChar = true := by
        dsimp only [hexadecimal] at isHex
        split at isHex
        · have letter := isPlainChar_of_class noMark.2.1 isHex
          simp [noMark.2.2, letter]
        · cases isHex
      rw [← List.take_append_drop 2 text, List.all_append, headPlain, ← isBody, bodyPlain,
        Bool.and_self]
    · have isBody : body = text := if_neg isHex
      have noMark : codeMarks.any (·.toLower == 'e') = false := by
        decide
      rw [if_neg isHex] at read
      rw [← isBody]
      exact all_isPlainChar_of_mantissa (all_isPlainChar_of_exponent? noMark read)

end Numeral

/-- A numeral opens, closes, parts and hides nothing. -/
theorem all_isPlainChar_of_isNumeral
    {text : Text}
    (numeral : isNumeral text = true) :
    text.all isPlainChar = true := by
  rcases Bool.or_eq_true_iff.mp numeral with special | finite
  · exact Numeral.all_isPlainChar_of_isSpecial special
  · exact Numeral.all_isPlainChar_of_dropSign (Numeral.all_isPlainChar_of_isFiniteNumeral finite)

/-! ## String literals -/

section

variable {mark : Char} (quote : isQuoteMark mark = true)
  {body : Text} (simple : mark ∉ body) (unescaped : '\\' ∉ body)

include quote simple unescaped

/-- A literal without escapes is closed by its second mark. -/
theorem isClosed_quoted :
    IsClosed (mark :: (body ++ [mark])) := by
  have opens : advance .outside 0 mark = some (.inside mark, 0) := by
    simp only [isQuoteMark, Bool.or_eq_true, beq_iff_eq] at quote
    rcases quote with rfl | rfl <;> rfl
  have notEscape : mark ≠ '\\' := ne_of_isQuoteMark quote rfl
  have inside : walk (.inside mark) 0 (body ++ [mark]) = some (.outside, 0) := by
    induction body with
    | nil =>
        simp [walk, advance, Quoting.step, notEscape]
    | cons character rest inductionHypothesis =>
        rw [List.mem_cons, not_or] at simple unescaped
        have stays : advance (.inside mark) 0 character = some (.inside mark, 0) := by
          simp [advance, Quoting.step, Ne.symm unescaped.1, Ne.symm simple.1]
        rw [List.cons_append, walk, stays]
        exact inductionHypothesis simple.2 unescaped.2
  unfold IsClosed
  rw [walk, opens]
  exact inside

/-- The scan closes it there as well, whether there is something between its marks or not. -/
theorem readsInCode_quoted :
    ReadsInCode (mark :: (body ++ [mark])) := by
  have notEscape : mark ≠ '\\' := ne_of_isQuoteMark quote rfl
  have opens : Scanning.code.step mark = .behindMark mark false false :=
    Scanning.step_quote quote
  have inside {scanning : Scanning}
      (isInside : scanning = .behindMark mark false false ∨ scanning = .inside mark false) :
      scanning.isLegible (body ++ [mark]) = true ∧
        (scanning.through (body ++ [mark])).settle = .code := by
    induction body generalizing scanning with
    | nil =>
        rcases isInside with rfl | rfl <;>
          simp [Scanning.isLegible, Scanning.pairs, Scanning.step, Scanning.stepInside,
            Scanning.settle, notEscape]
    | cons character rest inductionHypothesis =>
        rw [List.mem_cons, not_or] at simple unescaped
        have stays : scanning.pairs character = true ∧ scanning.step character = .inside mark false := by
          rcases isInside with rfl | rfl <;>
            simp [Scanning.pairs, Scanning.step, Scanning.stepInside, Ne.symm unescaped.1,
              Ne.symm simple.1]
        have below := inductionHypothesis simple.2 unescaped.2 (.inr rfl)
        rw [List.cons_append, Scanning.through_cons, stays.2]
        refine ⟨Scanning.isLegible_cons.mpr ⟨stays.1, ?_, ?_⟩, below.2⟩
        · simp [stays.2]
        · rw [stays.2]
          exact below.1
  have below := inside (.inl rfl)
  refine ⟨Scanning.isLegible_cons.mpr ⟨rfl, ?_, ?_⟩, ?_⟩
  · simp [opens]
  · rw [opens]
    exact below.1
  · rw [Scanning.through_cons, opens]
    exact below.2

end

/-- A hint that can be carried over is closed and read in code. -/
theorem ExportForm.closed_and_reads_of_isHintValue
    {text : Text}
    (trimmed : text.trim = text)
    (value : isHintValue text = true) :
    IsClosed text ∧ ReadsInCode text := by
  rcases Bool.or_eq_true_iff.mp value with numeral | literal
  · have plain := all_isPlainChar_of_isNumeral numeral
    exact ⟨isClosed_of_plain plain, .of_quiet (Scanning.all_isQuiet_of_plain plain)⟩
  · obtain ⟨body, isLiteral⟩ := Option.isSome_iff_exists.mp literal
    obtain ⟨mark, quote, simple, unescaped, shape⟩ := stringLiteral?_eq_some isLiteral
    have closed := isClosed_quoted quote simple unescaped
    have reads := readsInCode_quoted quote simple unescaped
    rw [trimmed] at shape
    rcases shape with rfl | rfl
    · exact ⟨closed, reads⟩
    · have sign : IsClosed ['&'] ∧ ['&'].all Scanning.isQuiet = true := by
        decide
      exact ⟨sign.1.append closed, .quiet_append sign.2 reads⟩

end ScriptUplift
