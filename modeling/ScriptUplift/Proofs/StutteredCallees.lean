import Mathlib.Data.List.Basic
import Mathlib.Tactic.Common
import ScriptUplift.Proofs.CarriedCalls
import ScriptUplift.Proofs.LexicalNeutrality

namespace ScriptUplift

/-!
# Stuttered callees collapse at once

The callees are found on the code as it was and collapsed from the last one to
the first.  A collapsed callee moves only what stands behind it, and there no
stuttered callee is left.  So every callee is still where it was found when its
turn comes, whether its call stands inside of another one or not.
-/

/-- A name that is the word `preload` with its first syllable stuttered. -/
def Stutters
    (name : Text) :
    Prop :=
  ∃ times, 0 < times ∧
    name = (List.replicate times "pre".toList).flatten ++ "preload".toList

theorem isRepeatedPreload_iff
    {name : Text} :
    isRepeatedPreload name = true ↔ Stutters name := by
  unfold isRepeatedPreload
  rw [List.any_eq_true]
  constructor
  · rintro ⟨times, _, repeats⟩
    exact ⟨times + 1, Nat.succ_pos _, repeatsBefore_iff.mp repeats⟩
  · rintro ⟨times, some, shape⟩
    obtain ⟨less, rfl⟩ := Nat.exists_eq_add_one.mpr some
    have repeats := repeatsBefore_iff.mpr shape
    have length := length_of_repeatsBefore repeats
    have syllable : "pre".toList.length = 3 := by
      decide
    rw [syllable] at length
    exact ⟨less, List.mem_range.mpr (by omega), repeats⟩

instance (name : Text) : Decidable (Stutters name) :=
  decidable_of_iff _ isRepeatedPreload_iff

/-- The complete calls of a piece of code whose callee is stuttered. -/
def stutteredCalls
    (code : Text) :
    List Call :=
  (Call.findAll (fun _ => true) code).filter fun call => decide (Stutters call.name)

/--
One piece of code is another one, from a position on, with the callees of these
calls collapsed: what stands before, between and behind them is the same.
-/
inductive Collapses : Nat → List Call → Text → Text → Prop
  | done (position : Nat) (rest : Text) :
      Collapses position [] rest rest
  | callee {position : Nat} {call : Call} {others : List Call} {gap rest result : Text}
      (starts : call.start = position + gap.length)
      (below : Collapses (call.start + call.name.length) others rest result) :
      Collapses position (call :: others) (gap ++ (call.name ++ rest))
        (gap ++ ("preload".toList ++ result))

/-! ## What is collapsed -/

theorem Call.findAll_filter
    (callee? : Text → Bool)
    (code : Text) :
    findAll callee? code = (findAll (fun _ => true) code).filter (callee? ·.name) := by
  unfold findAll
  rw [List.filter_true, List.filter_filterMap, List.filterMap_filter]
  refine List.filterMap_congr fun token _ => ?_
  cases found : ofToken? code token with
  | none =>
      simp
  | some call =>
      rw [← (placed_of_ofToken? found).1]
      rfl

theorem findAll_isRepeatedPreload
    (code : Text) :
    Call.findAll isRepeatedPreload code = stutteredCalls code := by
  rw [Call.findAll_filter, stutteredCalls]
  refine List.filter_congr fun call _ => ?_
  rw [Bool.eq_iff_iff, decide_eq_true_iff]
  exact isRepeatedPreload_iff

/-- The callee of a call stands where the call starts. -/
theorem Call.exists_callee
    {callee? : Text → Bool}
    {code : Text}
    {call : Call}
    (member : call ∈ findAll callee? code) :
    ∃ above rest, code = above ++ (call.name ++ rest) ∧ call.start = above.length := by
  obtain ⟨token, isToken, found⟩ := List.mem_filterMap.mp member
  obtain ⟨sameName, sameStart, _⟩ := placed_of_ofToken? found
  obtain ⟨above, rest, shape, startsAt, _⟩ :=
    exists_word_of_mem_identifiers (List.mem_of_mem_filter isToken)
  rw [sameName, sameStart]
  exact ⟨above, rest, shape, startsAt⟩

/-- Calls that stand one after the other are collapsed where they stand. -/
theorem collapses_collapsed
    {code : Text}
    {position : Nat}
    {calls : List Call}
    (inCode : ∀ call ∈ calls, ∃ above rest, code = above ++ (call.name ++ rest) ∧
      call.start = above.length)
    (behind : ∀ call ∈ calls, position ≤ call.start)
    (apart : calls.Pairwise fun earlier later => earlier.start + earlier.name.length ≤ later.start) :
    Collapses position calls (code.drop position) ((collapsed calls code).drop position) := by
  induction calls generalizing position with
  | nil =>
      exact .done _ _
  | cons call others inductionHypothesis =>
      obtain ⟨⟨above, rest, shape, startsAt⟩, othersInCode⟩ := List.forall_mem_cons.mp inCode
      obtain ⟨othersBehind, othersApart⟩ := List.pairwise_cons.mp apart
      have own := (List.forall_mem_cons.mp behind).1
      have inside : call.start + call.name.length ≤ code.length := by
        rw [shape, startsAt, List.length_append, List.length_append]
        omega
      have below := inductionHypothesis othersInCode othersBehind othersApart
      have sameFront : (collapsed others code).take call.start = above := by
        rw [take_collapsed (fun other member => Nat.le_of_add_right_le (othersBehind other member))
          (Nat.le_of_add_right_le inside), shape, startsAt, List.take_left]
      have result : collapsed (call :: others) code = above ++ ("preload".toList ++
          (collapsed others code).drop (call.start + call.name.length)) := by
        rw [← sameFront]
        simp [collapsed]
      have isRest : code.drop (call.start + call.name.length) = rest := by
        rw [← List.drop_drop, shape, startsAt, List.drop_left, List.drop_left]
      rw [isRest] at below
      have shorter : position ≤ above.length := startsAt ▸ own
      rw [result]
      conv =>
        arg 3
        rw [shape, List.drop_append_of_le_length shorter]
      rw [List.drop_append_of_le_length shorter]
      refine .callee ?_ below
      rw [List.length_drop, startsAt, Nat.add_sub_cancel' shorter]

/-! ## Nothing is left -/

/-- Whether a stuttered callee of a complete call stands at the start of a text. -/
def stutterAt
    (start : Text) :
    Bool :=
  isRepeatedPreload (start.takeWhile isIdentifierChar) &&
    (siteAt (start.takeWhile isIdentifierChar) start).isSome

/-- The stuttered callees of complete calls in a piece of code. -/
def stutters
    (code : Text) :
    List Token :=
  ((wordStarts .outside false code).filter stutterAt).map (wordAt code.length)

/-- A stuttered name is no number. -/
theorem not_isDigitChar_of_isRepeatedPreload
    {name : Text}
    (stuttered : isRepeatedPreload name = true) :
    name.head?.any isDigitChar = false := by
  obtain ⟨times, some, rfl⟩ := isRepeatedPreload_iff.mp stuttered
  obtain ⟨less, rfl⟩ := Nat.exists_eq_add_one.mpr some
  rfl

theorem map_findAll_isRepeatedPreload
    (code : Text) :
    (Call.findAll isRepeatedPreload code).map (fun call => (⟨call.name, call.start⟩ : Token)) =
      stutters code := by
  have words : (identifiers code).filter (isRepeatedPreload ·.text) =
      ((wordStarts .outside false code).map (wordAt code.length)).filter
        (isRepeatedPreload ·.text) := by
    unfold identifiers
    rw [← Quoting.mask_outside, wordRuns_mask, Nat.zero_add, List.filter_filter]
    refine List.filter_congr fun token _ => ?_
    cases stuttered : isRepeatedPreload token.text with
    | false =>
        rfl
    | true =>
        simp [not_isDigitChar_of_isRepeatedPreload stuttered]
  unfold Call.findAll stutters
  rw [words, List.filter_map, List.filterMap_map, List.map_filterMap, List.filterMap_filter,
    ← List.filterMap_eq_map, List.filterMap_filter]
  refine List.filterMap_congr fun start member => ?_
  have isCall : stutterAt start = (isRepeatedPreload (wordAt code.length start).text &&
      (Call.ofToken? code (wordAt code.length start)).isSome) := by
    rw [stutterAt, ← Call.map_ofToken? (suffix_of_mem_wordStarts member) rfl, Option.isSome_map]
    rfl
  dsimp only [Function.comp]
  rw [isCall]
  cases found : Call.ofToken? code (wordAt code.length start) with
  | none =>
      simp
  | some call =>
      obtain ⟨sameName, sameStart, _⟩ := Call.placed_of_ofToken? found
      rw [Option.map_some, sameName, sameStart, Option.isSome_some, Bool.and_true]

/-- A word in front of something else starts once, and the words below are those behind it. -/
theorem wordStarts_word_append
    {word : Text}
    (letters : word.all isIdentifierChar = true)
    (nonempty : word ≠ [])
    (rest : Text) :
    wordStarts .outside false (word ++ rest) = (word ++ rest) :: wordStarts .outside true rest := by
  have goesOn : endsInWord .outside false word = true := by
    cases word with
    | nil =>
        exact absurd rfl nonempty
    | cons first others =>
        rw [List.all_cons, Bool.and_eq_true] at letters
        obtain ⟨isWord, outside⟩ := step_of_isIdentifierChar letters.1
        rw [endsInWord, isWord, outside]
        exact endsInWord_of_all_isIdentifierChar letters.2
  rw [wordStarts_append, wordStarts_of_word letters nonempty,
    (isClosed_of_plain (all_isPlainChar_of_word letters)).through_eq, goesOn]
  rfl

theorem SiteSwapped.isSome_eq
    {old new : Text}
    {first second : Option CallSite}
    (swapped : SiteSwapped old new first second) :
    first.isSome = second.isSome := by
  cases swapped <;> rfl

/-- A stuttered callee above an operand stands there with any other operand in its place. -/
theorem stutterAt_swapped
    {start : Text}
    (apart : EndsApart .outside false start)
    (ends : start.all isIdentifierChar = false)
    {old new : Text}
    (oldOperand : Operand old)
    (newOperand : Operand new)
    (below : Text) :
    stutterAt (start ++ (old ++ below)) = stutterAt (start ++ (new ++ below)) := by
  unfold stutterAt
  rw [(takeWhile_append_of_not_all ends _).1, (takeWhile_append_of_not_all ends _).1,
    (siteAt_swapped _ apart ends oldOperand newOperand below).isSome_eq]

/-- A word with a letter that is no blank is an operand. -/
theorem operand_of_word
    {word : Text}
    (letters : word.all isIdentifierChar = true)
    {letter : Char}
    (member : letter ∈ word)
    (visible : isBlankChar letter = false) :
    Operand word where
  closed := isClosed_of_plain (all_isPlainChar_of_word letters)
  head := by
    cases word with
    | nil =>
        cases member
    | cons first others =>
        exact List.all_eq_true.mp letters first List.mem_cons_self
  visible := Text.isBlank_eq_false_of_mem member visible

/-- The stuttered callees that stand in a text, with another text below it. -/
def stuttersAbove
    (above below : Text) :
    List Token :=
  ((wordStarts .outside false above).filter fun start => stutterAt (start ++ below)).map
    (wordAt above.length)

/-- The stuttered callees of joined code stand in the one or the other part. -/
theorem stutters_append
    {above : Text}
    (apart : EndsApart .outside false above)
    (below : Text) :
    stutters (above ++ below) = stuttersAbove above below ++
      ((wordStarts .outside false below).filter stutterAt).map (wordAt (above ++ below).length) := by
  unfold stutters stuttersAbove
  rw [wordStarts_append, apart.outside, apart.noWord, List.filter_append, List.map_append,
    List.filter_map, List.map_map]
  congr 1
  refine List.map_congr_left fun start member => ?_
  have ends := (endsApart_of_mem_wordStarts apart (List.mem_of_mem_filter member)).2
  simp only [Function.comp_apply, wordAt, (takeWhile_append_of_not_all ends _).1, List.length_append]
  congr 1
  omega

theorem stuttersAbove_swapped
    {above : Text}
    (apart : EndsApart .outside false above)
    {old new : Text}
    (oldOperand : Operand old)
    (newOperand : Operand new)
    (below : Text) :
    stuttersAbove above (old ++ below) = stuttersAbove above (new ++ below) := by
  unfold stuttersAbove
  congr 1
  refine List.filter_congr fun start member => ?_
  obtain ⟨startApart, ends⟩ := endsApart_of_mem_wordStarts apart member
  exact stutterAt_swapped startApart ends oldOperand newOperand below

/-- The stuttered callees stand one behind the other. -/
theorem pairwise_stutters
    (code : Text) :
    (stutters code).Pairwise fun earlier later => earlier.start < later.start := by
  rw [← map_findAll_isRepeatedPreload, List.pairwise_map]
  refine (Call.pairwise_findAll isRepeatedPreload code).imp_of_mem ?_
  intro earlier later isEarlier _ apart
  have long := length_of_isRepeatedPreload (Call.placed_of_mem_findAll isEarlier).1
  dsimp only
  omega

/-- A stuttered callee parts its code into what is above, the callee and what is below. -/
theorem exists_parts_of_mem_stutters
    {code : Text}
    {token : Token}
    (member : token ∈ stutters code) :
    ∃ above rest, code = above ++ (token.text ++ rest) ∧ token.start = above.length ∧
      EndsApart .outside false above ∧ token.text.all isIdentifierChar = true ∧
      rest.takeWhile isIdentifierChar = [] ∧ Stutters token.text ∧
      stutterAt (token.text ++ rest) = true := by
  obtain ⟨start, isStart, rfl⟩ := List.mem_map.mp member
  obtain ⟨isWord, stuttered⟩ := List.mem_filter.mp isStart
  obtain ⟨above, rfl, apart⟩ := exists_above_of_mem_wordStarts isWord
  have parts : start.takeWhile isIdentifierChar ++ start.dropWhile isIdentifierChar = start :=
    List.takeWhile_append_dropWhile
  refine ⟨above, start.dropWhile isIdentifierChar, congrArg (above ++ ·) parts.symm, ?_, apart,
    List.all_takeWhile, ?_, isRepeatedPreload_iff.mp (Bool.and_eq_true_iff.mp stuttered).1, ?_⟩
  · simp [wordAt]
  · rw [List.takeWhile_eq_nil_iff]
    intro some
    simpa using List.dropWhile_get_zero_not isIdentifierChar start some
  · exact (congrArg stutterAt parts).trans stuttered

theorem Stutters.operand
    {name : Text}
    (stutters : Stutters name)
    (letters : name.all isIdentifierChar = true) :
    Operand name := by
  obtain ⟨times, _, rfl⟩ := stutters
  exact operand_of_word letters (List.mem_append_right _ (by decide : 'p' ∈ _)) (by decide)

/-- With the last stuttered callee collapsed the others are left, where they are. -/
theorem stutters_of_concat
    {code : Text}
    {others : List Token}
    {last : Token}
    (found : stutters code = others ++ [last]) :
    stutters (code.take last.start ++ "preload".toList ++
      code.drop (last.start + last.text.length)) = others := by
  have isLast : last ∈ stutters code := by
    rw [found]
    exact List.mem_append_right _ List.mem_cons_self
  obtain ⟨above, rest, shape, startsAt, apart, letters, ends, isStutter, stuttered⟩ :=
    exists_parts_of_mem_stutters isLast
  have nonempty : last.text ≠ [] := by
    intro noName
    have long := length_of_isRepeatedPreload (isRepeatedPreload_iff.mpr isStutter)
    rw [noName] at long
    cases long
  have firstWord {word : Text} (letters : word.all isIdentifierChar = true) :
      (word ++ rest).takeWhile isIdentifierChar = word := by
    rw [List.takeWhile_append_of_pos (List.all_eq_true.mp letters), ends, List.append_nil]
  have token : wordAt code.length (last.text ++ rest) = last := by
    rw [wordAt, firstWord letters]
    simp [shape, ← startsAt]
  have parts := stutters_append apart (last.text ++ rest)
  rw [wordStarts_word_append letters nonempty, List.filter_cons_of_pos stuttered, List.map_cons,
    ← shape, token, found] at parts
  -- Nothing that stands further right is stuttered, as this is the last one.
  have noneBelow : (wordStarts .outside true rest).filter stutterAt = [] := by
    have ordered := pairwise_stutters code
    rw [found] at ordered
    have before := (List.pairwise_append.mp ordered).2.2
    rw [parts] at ordered
    have behind := (List.pairwise_cons.mp (List.pairwise_append.mp ordered).2.1).1
    rw [List.eq_nil_iff_forall_not_mem]
    intro start member
    have isBelow := List.mem_map_of_mem (f := wordAt code.length) member
    have isFound : wordAt code.length start ∈ others ++ [last] := by
      rw [parts]
      exact List.mem_append_right _ (List.mem_cons_of_mem _ isBelow)
    rcases List.mem_append.mp isFound with isOther | isLast
    · exact Nat.lt_asymm (behind _ isBelow) (before _ isOther _ List.mem_cons_self)
    · exact Nat.lt_irrefl _ (List.mem_singleton.mp isLast ▸ behind _ isBelow)
  have notStuttered : ¬stutterAt ("preload".toList ++ rest) = true := by
    unfold stutterAt
    rw [firstWord (by decide)]
    exact Bool.false_ne_true
  have newCode : code.take last.start ++ "preload".toList ++
      code.drop (last.start + last.text.length) = above ++ ("preload".toList ++ rest) := by
    rw [shape, startsAt, List.take_left, ← List.drop_drop, List.drop_left, List.drop_left,
      List.append_assoc]
  rw [noneBelow] at parts
  rw [newCode, stutters_append apart, wordStarts_word_append (by decide) (by decide),
    List.filter_cons_of_neg notStuttered, noneBelow, List.map_nil, List.append_nil,
    ← stuttersAbove_swapped apart (isStutter.operand letters)
      (operand_of_word (by decide) (by decide : 'p' ∈ "preload".toList) (by decide))]
  exact List.append_cancel_right parts.symm

/-- With every stuttered callee collapsed none is left. -/
theorem stutters_collapsed
    {calls : List Call}
    {code : Text}
    (all : calls.map (fun call => (⟨call.name, call.start⟩ : Token)) = stutters code) :
    stutters (collapsed calls code) = [] := by
  induction calls using List.reverseRecOn generalizing code with
  | nil =>
      exact all.symm
  | append_singleton others last inductionHypothesis =>
      rw [List.map_append, List.map_singleton] at all
      have left := stutters_of_concat all.symm
      have step : collapsed (others ++ [last]) code = collapsed others
          (code.take last.start ++ "preload".toList ++ code.drop (last.start + last.name.length)) :=
        List.foldr_append
      rw [step]
      exact inductionHypothesis left.symm

/-- In code whose stuttered callees are collapsed none is found. -/
theorem stutteredCalls_collapsed
    (code : Text) :
    stutteredCalls (collapsed (stutteredCalls code) code) = [] := by
  have none := stutters_collapsed (map_findAll_isRepeatedPreload code)
  rw [← map_findAll_isRepeatedPreload] at none
  rw [← findAll_isRepeatedPreload, ← findAll_isRepeatedPreload]
  exact List.map_eq_nil_iff.mp none

/-! ## The line -/

/-- Words in the place of words take the scan of a line where it was taken. -/
theorem Edits.through_eq
    {callee code result : Text}
    (edits : Edits callee (fun _ => none) code result)
    {scanning : Scanning}
    (proper : scanning.IsProper) :
    scanning.through result = scanning.through code := by
  induction edits with
  | refl =>
      rfl
  | tail _ edit inductionHypothesis =>
      rw [← inductionHypothesis]
      cases edit with
      | words _ oldWords newWords _ =>
          have settles {words : Text} (isWording : IsWording words) (above : Text) :
              (scanning.through above).through words = (scanning.through above).settle :=
            Scanning.through_of_quiet (proper.through above) isWording.nonempty
              (Scanning.all_isQuiet_of_plain isWording.plain)
          simp only [Scanning.through_append, settles oldWords, settles newWords]
      | call _ _ built =>
          cases built

/-- The collapsed code is the code of the line it is put on. -/
theorem ofText_withCode_collapsed
    (text : Text) :
    let parts := LineParts.ofText text
    LineParts.ofText (parts.withCode (collapsed (stutteredCalls parts.code) parts.code)) =
      { parts with code := collapsed (stutteredCalls parts.code) parts.code } := by
  intro parts
  rw [← findAll_isRepeatedPreload]
  have edits : Edits [] (fun _ => none) parts.code _ :=
    edits_collapsed_preloads parts.code
  have bordered := edits.borderedAlike nofun
  refine LineParts.ofText_withCode (LineParts.comment_withCode ?_)
    (bordered.flush (LineParts.dropIndentation_code text))
  rw [Scanning.through_append, Scanning.through_append]
  exact edits.through_eq (Scanning.isProper_code.through _)

theorem UpliftRule.apply_preloadStutter
    (above text : Text) :
    UpliftRule.preloadStutter.apply above text =
      let parts := LineParts.ofText text
      let calls := stutteredCalls parts.code
      if calls.isEmpty then none
      else some { first := parts.withCode (collapsed calls parts.code), count := calls.length } := by
  dsimp only
  rw [← findAll_isRepeatedPreload]
  rfl

/--
The rule for stuttered callees fires when a complete call of the code of a line
has one.  It leaves the line with all of them collapsed, counts them, and does
not fire on the line it leaves.
-/
theorem UpliftRule.preloads_collapse_at_once
    (above text : Text) :
    let parts := LineParts.ofText text
    let calls := stutteredCalls parts.code
    parts.withCode parts.code = text ∧
      ((UpliftRule.preloadStutter.apply above text).isSome = true ↔
        ∃ call ∈ Call.findAll (fun _ => true) parts.code, Stutters call.name) ∧
      ∃ result, Collapses 0 calls parts.code result ∧
        UpliftRule.preloadStutter.apply above text =
          (if calls.isEmpty then none
          else some { first := parts.withCode result, others := [], count := calls.length }) ∧
        ∀ higher, UpliftRule.preloadStutter.apply higher (parts.withCode result) = none := by
  intro parts calls
  have applied := UpliftRule.apply_preloadStutter above text
  have someCall : calls ≠ [] ↔
      ∃ call ∈ Call.findAll (fun _ => true) parts.code, Stutters call.name := by
    simp [calls, stutteredCalls, List.filter_eq_nil_iff]
  have collapses : Collapses 0 calls parts.code (collapsed calls parts.code) := by
    have apart := Call.pairwise_findAll isRepeatedPreload parts.code
    rw [findAll_isRepeatedPreload] at apart
    refine collapses_collapsed (fun call member => ?_) (fun _ _ => Nat.zero_le _) apart
    exact Call.exists_callee (List.mem_of_mem_filter member)
  refine ⟨LineParts.withCode_code text, ?_, collapsed calls parts.code, collapses, applied, ?_⟩
  · rw [applied, ← someCall]
    dsimp only [parts, calls]
    cases stutteredCalls (LineParts.ofText text).code <;> simp
  · intro higher
    rw [UpliftRule.apply_preloadStutter, ofText_withCode_collapsed]
    dsimp only
    rw [stutteredCalls_collapsed]
    rfl

/-- A call that stands in another one is collapsed with it. -/
example :
    UpliftRule.preloadStutter.apply []
        "prepreload(preprepreload(x)) # prepreload(y)".toList =
      some { first := "preload(preload(x)) # prepreload(y)".toList, count := 2 } := by
  decide +kernel

end ScriptUplift
