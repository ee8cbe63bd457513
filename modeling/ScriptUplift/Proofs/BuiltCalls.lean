import Mathlib.Data.List.Basic
import Mathlib.Tactic.Common
import ScriptUplift.Proofs.ReplacedTexts
import ScriptUplift.Proofs.SpentCalls

namespace ScriptUplift

/-!
# What calls are replaced by

The builders put the identifier of a string literal, and other arguments as they
are, into a new text.  From closed arguments they build an operand.  What they
build is no string literal, and neither is an argument that holds it, so that no
builder is moved by it to replace a call that it left in place before.
-/

namespace Text

/-- Trimming takes blanks off the front and the end. -/
theorem exists_trim
    (text : Text) :
    ∃ front back, front.all isBlankChar = true ∧ back.all isBlankChar = true ∧
      text = front ++ (text.trim ++ back) := by
  refine ⟨text.takeWhile isBlankChar,
    ((text.dropWhile isBlankChar).reverse.takeWhile isBlankChar).reverse, List.all_takeWhile, ?_, ?_⟩
  · rw [List.all_reverse]
    exact List.all_takeWhile
  · calc
      text
        = text.takeWhile isBlankChar ++ (text.dropWhile isBlankChar).reverse.reverse := by
          rw [List.reverse_reverse, List.takeWhile_append_dropWhile]
      _ = _ := by
          conv_lhs =>
            rw [← List.takeWhile_append_dropWhile (p := isBlankChar)
              (l := (text.dropWhile isBlankChar).reverse)]
          rw [List.reverse_append]
          rfl

theorem mem_trim
    {text : Text}
    {character : Char}
    (member : character ∈ text)
    (visible : isBlankChar character = false) :
    character ∈ text.trim := by
  obtain ⟨front, back, frontBlank, backBlank, shape⟩ := text.exists_trim
  have notIn {blanks : Text} (blank : blanks.all isBlankChar = true) : character ∉ blanks := by
    intro among
    rw [List.all_eq_true.mp blank character among] at visible
    cases visible
  rw [shape, List.mem_append, List.mem_append] at member
  exact (member.resolve_left (notIn frontBlank)).resolve_right (notIn backBlank)

theorem find?_of_blank
    {text : Text}
    (blank : text.all isBlankChar = true) :
    text.find? (!isBlankChar ·) = none := by
  rw [List.find?_eq_none]
  intro character member
  simp [List.all_eq_true.mp blank character member]

theorem find?_eq_head?
    {text : Text}
    (visible : ∀ character, text.head? = some character → isBlankChar character = false) :
    text.find? (!isBlankChar ·) = text.head? := by
  cases text with
  | nil =>
      rfl
  | cons first rest =>
      simp [visible first rfl]

/-- A trimmed text ends with the last visible character. -/
theorem getLast?_trim
    (text : Text) :
    text.trim.getLast? = text.reverse.find? (!isBlankChar ·) := by
  have visible (character : Char) (isLast : text.trim.reverse.head? = some character) :
      isBlankChar character = false := by
    have first := List.head?_dropWhile_not isBlankChar (text.dropWhile isBlankChar).reverse
    rw [trim, dropEndWhile, List.reverse_reverse] at isLast
    simpa [isLast] using first
  obtain ⟨front, back, frontBlank, backBlank, shape⟩ := text.exists_trim
  calc
    text.trim.getLast?
      = text.trim.reverse.find? (!isBlankChar ·) := by
        rw [find?_eq_head? visible, List.head?_reverse]
    _ = text.reverse.find? (!isBlankChar ·) := by
        conv_rhs => rw [shape]
        rw [← List.all_reverse] at frontBlank backBlank
        rw [List.reverse_append, List.reverse_append, List.find?_append, List.find?_append,
          find?_of_blank frontBlank, find?_of_blank backBlank, Option.none_or, Option.or_none]

/-- A trimmed text begins with the first visible character. -/
theorem head?_trim
    (text : Text) :
    text.trim.head? = text.find? (!isBlankChar ·) := by
  have visible (character : Char) (isFirst : text.trim.head? = some character) :
      isBlankChar character = false := by
    have first := List.head?_dropWhile_not isBlankChar text
    obtain ⟨back, shape⟩ := text.trim_prefix
    rw [← shape, List.head?_append, isFirst] at first
    simpa using first
  obtain ⟨front, back, frontBlank, backBlank, shape⟩ := text.exists_trim
  calc
    text.trim.head?
      = text.trim.find? (!isBlankChar ·) :=
        (find?_eq_head? visible).symm
    _ = text.find? (!isBlankChar ·) := by
        conv_rhs => rw [shape]
        rw [List.find?_append, List.find?_append, find?_of_blank frontBlank,
          find?_of_blank backBlank, Option.none_or, Option.or_none]

theorem trim_of_visible_ends
    {text : Text}
    (first : ∀ character, text.head? = some character → isBlankChar character = false)
    (last : ∀ character, text.getLast? = some character → isBlankChar character = false) :
    text.trim = text := by
  have stays {other : Text}
      (visible : ∀ character, other.head? = some character → isBlankChar character = false) :
      other.dropWhile isBlankChar = other := by
    cases other with
    | nil =>
        rfl
    | cons head rest =>
        exact List.dropWhile_cons_of_neg (by simp [visible head rfl])
  rw [trim, stays first, dropEndWhile, stays, List.reverse_reverse]
  rwa [List.head?_reverse]

@[simp] theorem trim_trim
    (text : Text) :
    text.trim.trim = text.trim := by
  apply trim_of_visible_ends
  · intro character isFirst
    rw [head?_trim] at isFirst
    simpa using List.find?_some isFirst
  · intro character isLast
    rw [getLast?_trim] at isLast
    simpa using List.find?_some isLast

/-- Trimming leaves what stands between visible characters. -/
theorem mem_trim_between
    {first last : Text}
    (firstVisible : first.all isBlankChar = false)
    (lastVisible : last.all isBlankChar = false)
    (character : Char) :
    character ∈ (first ++ character :: last).trim := by
  rw [trim, (takeWhile_append_of_not_all firstVisible _).2, dropEndWhile, List.reverse_append,
    List.reverse_cons, List.append_assoc,
    (takeWhile_append_of_not_all (by rwa [List.all_reverse]) _).2]
  simp

end Text

/-- An identifier in quotes is what is left of its argument, up to the mark of a name. -/
theorem identifierLiteral?_eq_some
    {text name : Text}
    (literal : identifierLiteral? text = some name) :
    isIdentifier name = true ∧
      ∃ mark, isQuoteMark mark = true ∧
        (text.trim = mark :: (name ++ [mark]) ∨ text.trim = '&' :: mark :: (name ++ [mark])) := by
  obtain ⟨isLiteral, named⟩ := Option.filter_eq_some_iff.mp literal
  obtain ⟨mark, quote, _, _, shape⟩ := stringLiteral?_eq_some isLiteral
  exact ⟨named, mark, quote, shape⟩

theorem isIdentifierChar_of_mem
    {name : Text}
    (named : isIdentifier name = true)
    {character : Char}
    (member : character ∈ name) :
    isIdentifierChar character = true := by
  cases name with
  | nil =>
      cases member
  | cons first rest =>
      rw [isIdentifier, Bool.and_eq_true] at named
      rcases List.mem_cons.mp member with rfl | below
      · simp [isIdentifierChar, named.1]
      · exact List.all_eq_true.mp named.2 character below

theorem all_isIdentifierChar_of_isIdentifier
    {name : Text}
    (named : isIdentifier name = true) :
    name.all isIdentifierChar = true :=
  List.all_eq_true.mpr fun _ member => isIdentifierChar_of_mem named member

/-- The characters of an identifier in quotes. -/
theorem mem_of_identifierLiteral
    {text name : Text}
    (literal : identifierLiteral? text = some name)
    {character : Char}
    (member : character ∈ text.trim) :
    character = '&' ∨ isQuoteMark character = true ∨ isIdentifierChar character = true := by
  obtain ⟨named, mark, quote, shape⟩ := identifierLiteral?_eq_some literal
  have ofQuoted (among : character ∈ mark :: (name ++ [mark])) :
      isQuoteMark character = true ∨ isIdentifierChar character = true := by
    rw [List.mem_cons, List.mem_append, List.mem_singleton] at among
    rcases among with rfl | inName | rfl
    · exact .inl quote
    · exact .inr (isIdentifierChar_of_mem named inName)
    · exact .inl quote
  rcases shape with bare | marked
  · exact .inr (ofQuoted (bare ▸ member))
  · rw [marked, List.mem_cons] at member
    exact member.imp_right ofQuoted

/-- A text with an opening bracket is no identifier in quotes. -/
theorem identifierLiteral?_of_bracket
    {text : Text}
    (bracket : '(' ∈ text) :
    identifierLiteral? text = none := by
  rw [Option.eq_none_iff_forall_ne_some]
  intro name literal
  have visible : '(' ∈ text.trim :=
    Text.mem_trim bracket (by decide)
  rcases mem_of_identifierLiteral literal visible with mark | quote | word
  · exact absurd mark (by decide)
  · exact absurd quote (by decide)
  · exact absurd word (by decide)

/-- What an argument of a connection can be bound by is in square brackets. -/
theorem bindSuffix?_isSome
    (binds : Text) :
    (bindSuffix? binds).isSome = true ↔
      binds.head? = some '[' ∧ binds.getLast? = some ']' := by
  have atEnd : binds.endsWith [']'] = true ↔ binds.getLast? = some ']' := by
    rw [Text.endsWith, List.isSuffixOf_iff_suffix, List.getLast?_eq_some_iff]
    exact ⟨fun ⟨front, shape⟩ => ⟨front, shape.symm⟩, fun ⟨front, shape⟩ => ⟨front, shape.symm⟩⟩
  have atStart : binds.startsWith ['['] = true ↔ binds.head? = some '[' := by
    rw [Text.startsWith, List.isPrefixOf_iff_prefix, List.head?_eq_some_iff]
    exact ⟨fun ⟨back, shape⟩ => ⟨back, shape.symm⟩, fun ⟨back, shape⟩ => ⟨back, shape.symm⟩⟩
  unfold bindSuffix?
  rw [← atStart, ← atEnd, ← Bool.and_eq_true]
  cases binds.startsWith ['['] && binds.endsWith [']'] <;> rfl

/-- The shape of the newer forms: a signal with one of its methods called. -/
def IsSignalForm
    (text : Text) :
    Prop :=
  ∃ signal inner, isIdentifier signal = true ∧ '(' ∈ inner ∧ text = signal ++ '.' :: (inner ++ [')'])

/-- The outer characters of a newer form are no square brackets. -/
theorem IsSignalForm.ends
    {text : Text}
    (form : IsSignalForm text) :
    (∃ first, text.find? (!isBlankChar ·) = some first ∧ first ≠ '[') ∧
      text.reverse.find? (!isBlankChar ·) = some ')' := by
  obtain ⟨signal, inner, named, _, rfl⟩ := form
  have dot : ('.' :: (inner ++ [')'])).find? (!isBlankChar ·) = some '.' :=
    List.find?_cons_of_pos (by decide)
  constructor
  · rw [List.find?_append, dot]
    cases found : signal.find? (!isBlankChar ·) with
    | none =>
        exact ⟨'.', rfl, by decide⟩
    | some first =>
        refine ⟨first, rfl, ?_⟩
        rintro rfl
        exact absurd (isIdentifierChar_of_mem named (List.mem_of_find?_eq_some found)) (by decide)
  · rw [List.reverse_append, List.reverse_cons, List.reverse_append]
    exact List.find?_cons_of_pos (by decide)

theorem ArgumentSwapped.identifierLiteral?_eq
    {old new : Text}
    (form : IsSignalForm new)
    {first second name : Text}
    (swapped : ArgumentSwapped old new first second)
    (literal : identifierLiteral? second = some name) :
    identifierLiteral? first = some name := by
  cases swapped with
  | same =>
      exact literal
  | swapped above below =>
      obtain ⟨signal, inner, _, bracket, rfl⟩ := form
      rw [identifierLiteral?_of_bracket (Text.mem_trim (by simp [bracket]) (by decide))] at literal
      cases literal

theorem ArgumentSwapped.bindSuffix?_isSome
    {old new : Text}
    (form : IsSignalForm new)
    {first second : Text}
    (swapped : ArgumentSwapped old new first second)
    (bound : (bindSuffix? second).isSome = true) :
    (bindSuffix? first).isSome = true := by
  cases swapped with
  | same =>
      exact bound
  | swapped above below =>
      rw [ScriptUplift.bindSuffix?_isSome, Text.head?_trim, Text.getLast?_trim] at bound ⊢
      obtain ⟨⟨first, isFirst, notSquare⟩, isLast⟩ := form.ends
      obtain ⟨atStart, atEnd⟩ := bound
      have fromAbove : above.find? (!isBlankChar ·) = some '[' := by
        rw [List.find?_append, List.find?_append, isFirst] at atStart
        cases found : above.find? (!isBlankChar ·) with
        | none =>
            rw [found] at atStart
            exact absurd (Option.some.inj atStart) notSquare
        | some other =>
            rwa [found] at atStart
      have fromBelow : below.reverse.find? (!isBlankChar ·) = some ']' := by
        rw [List.reverse_append, List.reverse_append, List.find?_append, List.find?_append,
          isLast] at atEnd
        cases found : below.reverse.find? (!isBlankChar ·) with
        | none =>
            rw [found] at atEnd
            exact absurd (Option.some.inj atEnd) (by decide)
        | some other =>
            rwa [found] at atEnd
      rw [List.reverse_append, List.reverse_append, List.find?_append, List.find?_append,
        List.find?_append, List.find?_append, fromAbove, fromBelow]
      exact ⟨rfl, rfl⟩

theorem rebuiltSignalCall?_isSome
    (method : String)
    {extras : Bool}
    {signalText handlerText signal handler : Text}
    (target : Text)
    {more : List Text}
    (allowed : ((!extras && !more.isEmpty) || decide (2 < more.length)) = false)
    (isSignal : identifierLiteral? signalText = some signal)
    (isHandler : identifierLiteral? handlerText = some handler)
    (isBound : ((more.head?.map bindSuffix?).getD (some [])).isSome = true) :
    (rebuiltSignalCall? method extras (signalText :: target :: handlerText :: more)).isSome =
      true := by
  obtain ⟨bound, isBound⟩ := Option.isSome_iff_exists.mp isBound
  unfold rebuiltSignalCall?
  dsimp only
  rw [allowed, isSignal, isHandler, isBound]
  rfl

/-- A connection that cannot be rebuilt cannot be with a newer form in its arguments. -/
theorem steadfast_rebuiltSignalCall?
    (method : String)
    (extras : Bool)
    {new : Text}
    (form : IsSignalForm new) :
    Steadfast (rebuiltSignalCall? method extras) new := by
  intro old first second swapped unbuilt
  rw [Option.eq_none_iff_forall_ne_some]
  intro text built
  obtain ⟨signalText, target, handlerText, more, signal, handler, bound, rfl, allowed, isSignal,
    isHandler, isBound, -⟩ := rebuiltSignalCall?_eq_some built
  obtain ⟨firstSignal, _, signalSwapped, others, rfl⟩ := List.forall₂_cons_right_iff.mp swapped
  obtain ⟨firstTarget, _, _, behindTarget, rfl⟩ := List.forall₂_cons_right_iff.mp others
  obtain ⟨firstHandler, firstMore, handlerSwapped, moreSwapped, rfl⟩ :=
    List.forall₂_cons_right_iff.mp behindTarget
  have firstBound : ((firstMore.head?.map bindSuffix?).getD (some [])).isSome = true := by
    cases moreSwapped with
    | nil =>
        rfl
    | cons head =>
        exact head.bindSuffix?_isSome form (Option.isSome_iff_exists.mpr ⟨bound, isBound⟩)
  have sameEmpty : firstMore.isEmpty = more.isEmpty := by
    cases moreSwapped <;> rfl
  rw [← sameEmpty, ← moreSwapped.length_eq] at allowed
  have isBuilt := rebuiltSignalCall?_isSome method firstTarget allowed
    (signalSwapped.identifierLiteral?_eq form isSignal)
    (handlerSwapped.identifierLiteral?_eq form isHandler) firstBound
  rw [unbuilt] at isBuilt
  cases isBuilt

/-- An emission that cannot be rebuilt cannot be with a newer form in its arguments. -/
theorem steadfast_emitCall?
    {new : Text}
    (form : IsSignalForm new) :
    Steadfast emitCall? new := by
  intro old first second swapped unbuilt
  cases swapped with
  | nil =>
      rfl
  | cons head tail =>
      rw [emitCall?, Option.map_eq_none_iff] at unbuilt ⊢
      rw [Option.eq_none_iff_forall_ne_some] at unbuilt ⊢
      exact fun name literal => unbuilt name (head.identifierLiteral?_eq form literal)

/-- The shape of the newer form of a suspension. -/
def IsAwaitForm
    (text : Text) :
    Prop :=
  ∃ awaited, text = "await ".toList ++ awaited

/-- An argument with a suspension in it is no identifier in quotes. -/
theorem identifierLiteral?_of_await
    (above awaited : Text) :
    identifierLiteral? (Text.trim (above ++ ("await ".toList ++ awaited))) = none := by
  rw [Option.eq_none_iff_forall_ne_some]
  intro name literal
  have shape : above ++ ("await ".toList ++ awaited) =
      (above ++ "await".toList) ++ ' ' :: awaited := by
    simp
  rw [shape] at literal
  have firstVisible : (above ++ "await".toList).all isBlankChar = false := by
    have keyword : "await".toList.all isBlankChar = false := by
      decide
    rw [List.all_append, keyword, Bool.and_false]
  cases blank : awaited.all isBlankChar with
  | false =>
      have inside := Text.mem_trim_between firstVisible blank ' '
      rw [← Text.trim_trim] at inside
      rcases mem_of_identifierLiteral literal inside with mark | quote | word
      · exact absurd mark (by decide)
      · exact absurd quote (by decide)
      · exact absurd word (by decide)
  | true =>
      have isLast : (Text.trim ((above ++ "await".toList) ++ ' ' :: awaited)).getLast? =
          some 't' := by
        rw [Text.getLast?_trim, List.reverse_append, List.reverse_cons, List.append_assoc,
          List.find?_append, Text.find?_of_blank (by rwa [List.all_reverse]), List.reverse_append,
          Option.none_or]
        rfl
      obtain ⟨_, mark, quote, ends⟩ := identifierLiteral?_eq_some literal
      rw [Text.trim_trim] at ends
      have isMark : mark = 't' := by
        rcases ends with bare | marked
        · rw [bare, ← List.cons_append, List.getLast?_concat] at isLast
          exact Option.some.inj isLast
        · rw [marked, ← List.cons_append, ← List.cons_append, List.getLast?_concat] at isLast
          exact Option.some.inj isLast
      subst isMark
      exact absurd quote (by decide)

/-- A suspension that cannot be rebuilt cannot be with a newer form in its arguments. -/
theorem steadfast_awaitExpression?
    {new : Text}
    (form : IsAwaitForm new) :
    Steadfast awaitExpression? new := by
  obtain ⟨awaited, rfl⟩ := form
  intro old first second swapped unbuilt
  cases swapped with
  | nil =>
      rfl
  | cons _ others =>
      cases others with
      | nil =>
          cases unbuilt
      | cons signalSwapped others =>
          cases others with
          | nil =>
              rw [awaitExpression?, Option.map_eq_none_iff] at unbuilt ⊢
              cases signalSwapped with
              | same =>
                  exact unbuilt
              | swapped above below =>
                  rw [List.append_assoc]
                  exact identifierLiteral?_of_await above (awaited ++ below)
          | cons =>
              rfl

/-- The marks that strings are opened with are quotation marks. -/
def Quoting.IsProper : Quoting → Prop
  | .outside =>
      True
  | .inside mark | .escaped mark =>
      isQuoteMark mark = true

theorem Quoting.isProper_step
    {quoting : Quoting}
    (proper : quoting.IsProper)
    (character : Char) :
    (quoting.step character).IsProper := by
  unfold step
  cases quoting with
  | outside =>
      dsimp only
      split
      · assumption
      · trivial
  | inside mark =>
      dsimp only
      split
      · exact proper
      · split
        · trivial
        · exact proper
  | escaped mark =>
      exact proper

theorem Quoting.isProper_through
    {quoting : Quoting}
    (proper : quoting.IsProper)
    (text : Text) :
    (quoting.through text).IsProper := by
  induction text generalizing quoting with
  | nil =>
      exact proper
  | cons character rest inductionHypothesis =>
      exact inductionHypothesis (isProper_step proper character)

/-- Only a quotation mark closes a string. -/
theorem Quoting.outside_of_step
    {quoting : Quoting}
    (proper : quoting.IsProper)
    {character : Char}
    (noQuote : isQuoteMark character = false)
    (closes : quoting.step character = .outside) :
    quoting = .outside := by
  cases quoting with
  | outside =>
      rfl
  | inside mark =>
      have notMark : character ≠ mark := by
        rintro rfl
        rw [show isQuoteMark character = true from proper] at noQuote
        cases noQuote
      rw [step] at closes
      split at closes <;> cases closes
  | escaped mark =>
      cases closes

/-- A walk that ends outside of strings after plain characters was outside before them. -/
theorem outside_of_walk_plain
    {quoting : Quoting}
    (proper : quoting.IsProper)
    {depth nextDepth : Nat}
    {text : Text}
    (plain : text.all isPlainChar = true)
    (walked : walk quoting depth text = some (.outside, nextDepth)) :
    quoting = .outside ∧ depth = nextDepth := by
  induction text generalizing quoting depth with
  | nil =>
      exact Prod.mk.inj (Option.some.inj walked)
  | cons character rest inductionHypothesis =>
      rw [List.all_cons, Bool.and_eq_true] at plain
      obtain ⟨⟨next, between⟩, advanced, below⟩ := Option.bind_eq_some_iff.mp walked
      have stepped : next = quoting.step character :=
        (advance_eq_some advanced).1
      have nextProper : next.IsProper :=
        stepped ▸ Quoting.isProper_step proper character
      obtain ⟨isOutside, rfl⟩ := inductionHypothesis nextProper plain.2 below
      have noQuote := isQuoteMark_of_isPlainChar plain.1
      obtain rfl := Quoting.outside_of_step proper noQuote (stepped.symm.trans isOutside)
      rw [advance_of_isPlainChar plain.1] at advanced
      exact ⟨rfl, (Prod.mk.inj (Option.some.inj advanced)).2⟩

theorem walk_trim
    {depth : Nat}
    {text : Text}
    (walked : walk .outside depth text = some (.outside, depth)) :
    walk .outside depth text.trim = some (.outside, depth) := by
  obtain ⟨front, back, frontBlank, backBlank, shape⟩ := text.exists_trim
  have plain {blanks : Text} (blank : blanks.all isBlankChar = true) :
      blanks.all isPlainChar = true := by
    rw [List.all_eq_true] at blank ⊢
    exact fun character member => isPlainChar_of_isBlankChar (blank character member)
  rw [shape, walk_append, walk_of_plain (plain frontBlank), Option.bind_some, walk_append] at walked
  obtain ⟨⟨quoting, between⟩, inner, behind⟩ := Option.bind_eq_some_iff.mp walked
  have start : Quoting.outside.IsProper :=
    trivial
  have proper : quoting.IsProper :=
    through_of_walk inner ▸ Quoting.isProper_through start _
  obtain ⟨rfl, rfl⟩ := outside_of_walk_plain proper (plain backBlank) behind
  exact inner

/-- The arguments of a call are closed. -/
theorem isClosed_of_mem_argumentsOf
    {pieces : List Text}
    (closed : ∀ piece ∈ pieces, IsClosed piece)
    {argument : Text}
    (member : argument ∈ argumentsOf pieces) :
    IsClosed argument := by
  obtain ⟨piece, among, rfl⟩ := exists_of_mem_argumentsOf member
  exact walk_trim (closed piece among)

theorem isClosed_of_isIdentifier
    {name : Text}
    (named : isIdentifier name = true) :
    IsClosed name :=
  isClosed_of_plain (all_isPlainChar_of_word (all_isIdentifierChar_of_isIdentifier named))

/-- A signal with one of its methods called on closed arguments is an operand. -/
theorem operand_of_signalCall
    {signal method inner : Text}
    (named : isIdentifier signal = true)
    (plain : method.all isPlainChar = true)
    (walked : walk .outside 1 inner = some (.outside, 1)) :
    Operand (signal ++ '.' :: (method ++ '(' :: (inner ++ [')']))) := by
  have bracket : isBlankChar '(' = false := by
    decide
  have dot : IsClosed ['.'] := by
    decide
  refine ⟨?_, ?_, Text.isBlank_eq_false_of_mem (by simp) bracket⟩
  · exact (isClosed_of_isIdentifier named).append (dot.append
      ((isClosed_of_plain plain).append (isClosed_of_bracketed (by decide) (by decide) walked)))
  · cases signal with
    | nil =>
        cases named
    | cons first rest =>
        exact isIdentifierChar_of_mem named List.mem_cons_self

theorem bindSuffix?_eq_some
    {binds bound : Text}
    (isBound : bindSuffix? binds = some bound) :
    ∃ inner : Text, binds = '[' :: (inner ++ [']']) ∧
      bound = if inner.trim = [] then [] else ".bind(".toList ++ inner.trim ++ [')'] := by
  have present : (bindSuffix? binds).isSome = true :=
    Option.isSome_iff_exists.mpr ⟨bound, isBound⟩
  obtain ⟨atStart, atEnd⟩ := (bindSuffix?_isSome binds).mp present
  obtain ⟨behind, rfl⟩ := List.head?_eq_some_iff.mp atStart
  have lastBehind : behind.getLast? = some ']' := by
    cases behind with
    | nil =>
        cases atEnd
    | cons second rest =>
        rwa [List.getLast?_cons_cons] at atEnd
  refine ⟨behind.dropLast, ?_, ?_⟩
  · rw [List.dropLast_append_getLast? ']' lastBehind]
  · unfold bindSuffix? at isBound
    split at isBound
    · exact (Option.some.inj isBound).symm
    · cases isBound

/-- What bound arguments become leaves nothing open, as they do. -/
theorem isClosed_bindSuffix?
    {binds bound : Text}
    (closed : IsClosed binds)
    (isBound : bindSuffix? binds = some bound) :
    IsClosed bound := by
  obtain ⟨inner, rfl, rfl⟩ := bindSuffix?_eq_some isBound
  split
  · exact rfl
  · have walked : walk .outside 1 inner = some (.outside, 1) := by
      have opens : advance .outside 0 '[' = some (.outside, 1) :=
        rfl
      unfold IsClosed at closed
      rw [walk, opens, Option.bind_some, walk_append] at closed
      obtain ⟨⟨quoting, depth⟩, inside, behind⟩ := Option.bind_eq_some_iff.mp closed
      obtain ⟨⟨last, lastDepth⟩, closes, ends⟩ := Option.bind_eq_some_iff.mp behind
      obtain ⟨rfl, rfl⟩ := Prod.mk.inj (Option.some.inj ends)
      have start : Quoting.outside.IsProper :=
        trivial
      have proper : quoting.IsProper :=
        through_of_walk inside ▸ Quoting.isProper_through start _
      obtain rfl := Quoting.outside_of_step proper (by decide) (advance_eq_some closes).1.symm
      have isOne : depth = 1 := by
        unfold advance at closes
        simp [isOpeningBracket, isClosingBracket] at closes
        omega
      rw [isOne] at inside
      exact inside
    have call : IsClosed ('(' :: (inner.trim ++ [')'])) :=
      isClosed_of_bracketed (by decide) (by decide) (walk_trim walked)
    rw [List.append_assoc]
    exact (by decide : IsClosed ".bind".toList).append call

/-- From closed arguments a connection is rebuilt as an operand in the newer form. -/
theorem operand_rebuiltSignalCall?
    {method : String}
    (plain : method.toList.all isPlainChar = true)
    {extras : Bool}
    {arguments : List Text}
    (closed : ∀ argument ∈ arguments, IsClosed argument)
    {text : Text}
    (built : rebuiltSignalCall? method extras arguments = some text) :
    Operand text := by
  obtain ⟨signalText, target, handlerText, more, signal, handler, bound, rfl, allowed, isSignal,
    isHandler, isBound, rfl⟩ := rebuiltSignalCall?_eq_some built
  obtain ⟨_, targetClosed, _, moreClosed⟩ : IsClosed signalText ∧ IsClosed target ∧
      IsClosed handlerText ∧ ∀ argument ∈ more, IsClosed argument := by
    simpa using closed
  have handlerClosed : IsClosed handler :=
    isClosed_of_isIdentifier (identifierLiteral?_eq_some isHandler).1
  have callableClosed : IsClosed (if target = "self".toList then handler
      else target ++ ['.'] ++ handler) := by
    split
    · exact handlerClosed
    · exact (targetClosed.append (by decide : IsClosed ['.'])).append handlerClosed
  have boundClosed : IsClosed bound := by
    cases more with
    | nil =>
        obtain rfl := Option.some.inj isBound
        exact rfl
    | cons binds _ =>
        exact isClosed_bindSuffix? (moreClosed binds List.mem_cons_self) isBound
  have flagsWalk : walk .outside 1 ((more[1]?.map (", ".toList ++ ·)).getD []) =
      some (.outside, 1) := by
    cases flags : more[1]? with
    | none =>
        rfl
    | some flag =>
        have separates : walk .outside 1 ", ".toList = some (.outside, 1) := by
          decide
        rw [Option.map_some, Option.getD_some, walk_append, separates]
        exact (moreClosed flag (List.mem_of_getElem? flags)).walk_eq 1
  have inner : walk .outside 1 ((if target = "self".toList then handler
      else target ++ ['.'] ++ handler) ++ bound ++ (more[1]?.map (", ".toList ++ ·)).getD []) =
      some (.outside, 1) := by
    rw [walk_append, (callableClosed.append boundClosed).walk_eq]
    exact flagsWalk
  have call := operand_of_signalCall (identifierLiteral?_eq_some isSignal).1 plain inner
  simpa only [List.append_assoc, List.cons_append, List.nil_append, List.singleton_append] using call

/-- From closed arguments an emission is rebuilt as an operand in the newer form. -/
theorem operand_emitCall?
    {arguments : List Text}
    (closed : ∀ argument ∈ arguments, IsClosed argument)
    {text : Text}
    (built : emitCall? arguments = some text) :
    Operand text := by
  obtain ⟨signalText, values, signal, rfl, isSignal, rfl⟩ := emitCall?_eq_some built
  have shape : signal ++ ".emit(".toList ++ Text.joinWith ", ".toList values ++ [')'] =
      signal ++ '.' :: ("emit".toList ++ '(' :: (Text.joinWith ", ".toList values ++ [')'])) := by
    simp
  rw [shape]
  exact operand_of_signalCall (identifierLiteral?_eq_some isSignal).1 (by decide)
    (walk_joinWith (by decide) (List.forall_mem_cons.mp closed).2)

theorem Awaited.isClosed
    {arguments : List Text}
    (closed : ∀ argument ∈ arguments, IsClosed argument)
    {awaited : Text}
    (names : Awaited arguments awaited) :
    IsClosed awaited := by
  cases names with
  | expression | completed =>
      exact closed _ List.mem_cons_self
  | own isSignal =>
      exact isClosed_of_isIdentifier (identifierLiteral?_eq_some isSignal).1
  | signal object isSignal =>
      have signalClosed := isClosed_of_isIdentifier (identifierLiteral?_eq_some isSignal).1
      exact (closed object List.mem_cons_self).append ((by decide : IsClosed ['.']).append signalClosed)

/-- From closed arguments a suspension is rebuilt as an operand. -/
theorem operand_awaitExpression?
    {arguments : List Text}
    (closed : ∀ argument ∈ arguments, IsClosed argument)
    {text : Text}
    (built : awaitExpression? arguments = some text) :
    Operand text := by
  obtain ⟨awaited, names, rfl⟩ := awaitExpression?_eq_some built
  exact ⟨(by decide : IsClosed "await ".toList).append (names.isClosed closed), rfl,
    Text.isBlank_eq_false_of_mem (by simp : 'a' ∈ _) (by decide)⟩

theorem isSignalForm_rebuiltSignalCall?
    {method : String}
    {extras : Bool}
    {arguments : List Text}
    {text : Text}
    (built : rebuiltSignalCall? method extras arguments = some text) :
    IsSignalForm text := by
  obtain ⟨_, target, _, more, signal, handler, bound, _, _, isSignal, _, _, rfl⟩ :=
    rebuiltSignalCall?_eq_some built
  refine ⟨signal, method.toList ++ '(' :: ((if target = "self".toList then handler
    else target ++ ['.'] ++ handler) ++ bound ++ (more[1]?.map (", ".toList ++ ·)).getD []),
    (identifierLiteral?_eq_some isSignal).1, by simp, ?_⟩
  simp only [List.append_assoc, List.cons_append, List.nil_append]

theorem isSignalForm_emitCall?
    {arguments : List Text}
    {text : Text}
    (built : emitCall? arguments = some text) :
    IsSignalForm text := by
  obtain ⟨_, values, signal, _, isSignal, rfl⟩ := emitCall?_eq_some built
  refine ⟨signal, "emit(".toList ++ Text.joinWith ", ".toList values,
    (identifierLiteral?_eq_some isSignal).1, by simp, ?_⟩
  simp

theorem isAwaitForm_awaitExpression?
    {arguments : List Text}
    {text : Text}
    (built : awaitExpression? arguments = some text) :
    IsAwaitForm text := by
  obtain ⟨awaited, _, shape⟩ := awaitExpression?_eq_some built
  exact ⟨awaited, shape⟩

/-- The rules that replace the calls of one name, with the builder of what replaces them. -/
inductive ReplacesCalls : UpliftRule → String → (List Text → Option Text) → Prop
  | connect :
      ReplacesCalls .connect "connect" (rebuiltSignalCall? "connect" true)
  | disconnect :
      ReplacesCalls .disconnect "disconnect" (rebuiltSignalCall? "disconnect" false)
  | isConnected :
      ReplacesCalls .isConnected "is_connected" (rebuiltSignalCall? "is_connected" false)
  | emit :
      ReplacesCalls .emit "emit_signal" emitCall?
  | suspension :
      ReplacesCalls .suspension "yield" awaitExpression?

namespace ReplacesCalls

variable {rule : UpliftRule} {callee : String} {build : List Text → Option Text}

theorem apply_eq
    (replaces : ReplacesCalls rule callee build)
    (above text : Text) :
    rule.apply above text = replaceCalls callee build text := by
  cases replaces <;> rfl

theorem calleeName
    (replaces : ReplacesCalls rule callee build) :
    CalleeName callee.toList := by
  cases replaces <;> exact ⟨by decide, by decide, by decide⟩

theorem operand
    (replaces : ReplacesCalls rule callee build)
    {arguments : List Text}
    (closed : ∀ argument ∈ arguments, IsClosed argument)
    {text : Text}
    (built : build arguments = some text) :
    Operand text := by
  cases replaces with
  | connect | disconnect | isConnected =>
      exact operand_rebuiltSignalCall? (by decide) closed built
  | emit =>
      exact operand_emitCall? closed built
  | suspension =>
      exact operand_awaitExpression? closed built

theorem isSignalForm
    (replaces : ReplacesCalls rule callee build)
    (notSuspension : rule ≠ .suspension)
    {arguments : List Text}
    {text : Text}
    (built : build arguments = some text) :
    IsSignalForm text := by
  cases replaces with
  | connect | disconnect | isConnected =>
      exact isSignalForm_rebuiltSignalCall? built
  | emit =>
      exact isSignalForm_emitCall? built
  | suspension =>
      exact absurd rfl notSuspension

theorem steadfast_of_isSignalForm
    (replaces : ReplacesCalls rule callee build)
    (notSuspension : rule ≠ .suspension)
    {new : Text}
    (form : IsSignalForm new) :
    Steadfast build new := by
  cases replaces with
  | connect | disconnect | isConnected =>
      exact steadfast_rebuiltSignalCall? _ _ form
  | emit =>
      exact steadfast_emitCall? form
  | suspension =>
      exact absurd rfl notSuspension

/-- What a rule builds does not make another call one that it replaces. -/
theorem steadfast
    (replaces : ReplacesCalls rule callee build)
    {arguments : List Text}
    {text : Text}
    (built : build arguments = some text) :
    Steadfast build text := by
  by_cases isSuspension : rule = .suspension
  · cases replaces <;> cases isSuspension
    exact steadfast_awaitExpression? (isAwaitForm_awaitExpression? built)
  · exact replaces.steadfast_of_isSignalForm isSuspension (replaces.isSignalForm isSuspension built)

/-- A rule that stops before its limit leaves no call that it could replace. -/
theorem spent_of_lt
    (replaces : ReplacesCalls rule callee build)
    {code : Text}
    (stopped : (replaceCallsFrom callee.toList build maxCallsPerLine 0 code).2 < maxCallsPerLine) :
    Spent callee.toList build
      (replaceCallsFrom callee.toList build maxCallsPerLine 0 code).1 := by
  refine spent_replaceCallsFrom replaces.calleeName ?_ ?_ ?_ stopped
  · intro pieces text closed built
    exact replaces.operand (fun _ member => isClosed_of_mem_argumentsOf closed member) built
  · exact fun _ _ built => replaces.steadfast built
  · exact fun _ member => absurd member List.not_mem_nil

end ReplacesCalls

end ScriptUplift
