import Mathlib.Tactic.Common
import ScriptUplift.Proofs.EmittedArguments
import ScriptUplift.Proofs.Handoff
import ScriptUplift.Proofs.HintValues
import ScriptUplift.Proofs.LexicalNeutrality
import ScriptUplift.Proofs.Rereading

namespace ScriptUplift

/-!
# Annotations that are recognised again

The annotation of an export carries its last hints as they are, or none.  Both
readers of annotations take it for one: the rules, which look for an annotation
above a field, and the classifier, which binds it to the field below.  The field
is then exported by the annotation alone.
-/

theorem firstWord_eq_of_parts
    {leading word rest : Text}
    (indents : leading.all isIndentChar = true)
    (letters : word.all isIdentifierChar = true)
    (someLetter : word ≠ [])
    (ends : ∀ character ∈ rest.head?, isIdentifierChar character = false) :
    firstWord (leading ++ (word ++ rest)) = (word, rest) := by
  have flush : Text.dropIndentation (leading ++ (word ++ rest)) = word ++ rest := by
    rw [Text.dropIndentation, List.dropWhile_append_of_pos (List.all_eq_true.mp indents)]
    exact (Text.isFlush_of_word letters).append fun noLetter => absurd noLetter someLetter
  have noMore : rest.takeWhile isIdentifierChar = [] ∧ rest.dropWhile isIdentifierChar = rest := by
    cases rest with
    | nil =>
        exact ⟨rfl, rfl⟩
    | cons character others =>
        have notLetter := ends character rfl
        simp [notLetter]
  rw [firstWord, flush, List.takeWhile_append_of_pos (List.all_eq_true.mp letters),
    List.dropWhile_append_of_pos (List.all_eq_true.mp letters), noMore.1, noMore.2, List.append_nil]

/-- What follows the first word goes on with no letter. -/
theorem head?_firstWord
    (text : Text) :
    ∀ character ∈ (firstWord text).2.head?, isIdentifierChar character = false := by
  intro character isFirst
  have notLetter := List.head?_dropWhile_not isIdentifierChar text.dropIndentation
  rw [firstWord, Option.mem_def] at isFirst
  simpa [isFirst] using notLetter

namespace ExportForm

/-! ## The list -/

/-- Closed and trimmed elements come back from a list, which is closed at its end. -/
theorem exists_list_of_elements
    {elements : List Text}
    (closed : ∀ element ∈ elements, IsClosed element)
    (trimmed : ∀ element ∈ elements, element.trim = element)
    (someElement : elements ≠ [[]]) :
    splitArguments (Text.joinWith ", ".toList elements) = elements ∧
      closingIndex ('(' :: (Text.joinWith ", ".toList elements ++ [')'])) 0 =
        some ((Text.joinWith ", ".toList elements).length + 1) := by
  obtain ⟨first, others, isSpaced⟩ : ∃ first others, spacedPieces elements = first :: others := by
    cases elements <;> exact ⟨_, _, rfl⟩
  have spacedClosed := isClosed_of_mem_spacedPieces closed
  have joined := joinWith_spacedPieces elements
  have arguments := argumentsOf_spacedPieces trimmed
  rw [isSpaced] at spacedClosed joined arguments
  have found := piecesRead .outside 0 (Text.joinWith ", ".toList elements ++ [')'])
  rw [← joined, readPieces_joinWith spacedClosed (by decide) [], joined] at found
  obtain ⟨inner, closing, shape, closes, cut⟩ := found
  obtain ⟨rfl, _⟩ := List.append_inj' shape rfl
  constructor
  · rw [splitArguments_eq]
    exact (congrArg argumentsOf cut).trans (arguments.trans (if_neg someElement))
  · rw [Call.closingIndex_eq (by decide) (rfl : List.drop 0 _ = '(' :: _)]
    exact congrArg (Option.map (· + (0 + 1))) closes

/-- An annotation for exports with its word and its list, which is closed at its end. -/
structure StandsAsExport
    (word list : Text) :
    Prop where
  named : isExportName ('@' :: word) = true
  closes : list = [] ∨ ∃ inner, list = '(' :: (inner ++ [')']) ∧
    closingIndex list 0 = some (inner.length + 1)
  isPart : IsCodePart ('@' :: (word ++ list))

/-- The word of a name for exports. -/
theorem exists_word_of_isExportName
    {name : Text}
    (named : isExportName name = true) :
    ∃ word, name = '@' :: word ∧ Text.startsWith word "export".toList = true ∧ word ≠ [] ∧
      ∀ character ∈ word, isIdentifierChar character = true ∧ isBlankChar character = false := by
  unfold isExportName at named
  split at named
  · rename_i word
    rw [Bool.and_eq_true, List.all_eq_true] at named
    refine ⟨word, rfl, named.1, ?_, fun character member => by simpa using named.2 character member⟩
    rintro rfl
    cases named.1
  · cases named

/-! ## Both readers -/

namespace StandsAsExport

variable {word list : Text} (stands : StandsAsExport word list)

include stands

theorem word_spec :
    Text.startsWith word "export".toList = true ∧ word ≠ [] ∧
      ∀ character ∈ word, isIdentifierChar character = true ∧ isBlankChar character = false := by
  obtain ⟨own, shape, starts, someLetter, letters⟩ := exists_word_of_isExportName stands.named
  obtain rfl := (List.cons.inj shape).2
  exact ⟨starts, someLetter, letters⟩

theorem trim_list : list.trim = list := by
  rcases stands.closes with rfl | ⟨inner, rfl, _⟩
  · rfl
  · refine Text.trim_of_visible_ends ?_ ?_
    · intro character isFirst
      obtain rfl := Option.some.inj isFirst
      decide
    · intro character isLast
      rw [← List.cons_append, List.getLast?_concat] at isLast
      obtain rfl := Option.some.inj isLast
      decide

theorem exists_last :
    ∃ last, List.getLast? ('@' :: (word ++ list)) = some last ∧ isBlankChar last = false ∧
      (last = ')' ∨ isIdentifierChar last = true) := by
  obtain ⟨_, someLetter, letters⟩ := stands.word_spec
  rcases stands.closes with rfl | ⟨inner, rfl, _⟩
  · obtain ⟨isLetter, own⟩ := letters _ (List.getLast_mem someLetter)
    refine ⟨word.getLast someLetter, ?_, own, .inr isLetter⟩
    rw [List.append_nil, List.getLast?_cons_of_ne_nil someLetter, List.getLast?_eq_getLast_of_ne_nil]
  · refine ⟨')', ?_, by decide, .inl rfl⟩
    rw [← List.cons_append, ← List.cons_append, ← List.append_assoc, List.getLast?_concat]

theorem trim_eq : Text.trim ('@' :: (word ++ list)) = '@' :: (word ++ list) := by
  obtain ⟨last, isLast, visible, _⟩ := stands.exists_last
  refine Text.trim_of_visible_ends ?_ ?_
  · intro character isFirst
    obtain rfl := Option.some.inj isFirst
    decide
  · intro character isCharacter
    rw [isLast] at isCharacter
    rwa [← Option.some.inj isCharacter]

theorem firstWord_eq : firstWord (word ++ list) = (word, list) := by
  obtain ⟨_, someLetter, letters⟩ := stands.word_spec
  refine firstWord_eq_of_parts (rfl : List.all [] isIndentChar = true)
    (List.all_eq_true.mpr fun character member => (letters character member).1) someLetter ?_
  intro character isFirst
  rcases stands.closes with rfl | ⟨inner, rfl, _⟩
  · cases isFirst
  · obtain rfl := Option.some.inj isFirst
    decide

/-- On a line of its own the annotation is the code of the line. -/
theorem scan_eq
    {leading : Text}
    (indents : leading.all isIndentChar = true) :
    Scan.line none (leading ++ '@' :: (word ++ list)) =
      ⟨leading ++ '@' :: (word ++ list), [], 0, none⟩ :=
  Scan.line_plain_append (all_isPlainChar_of_indent indents) stands.isPart

/-- The line neither goes on below nor opens a block. -/
theorem lastVisible_ne
    {leading : Text}
    {mark : Char}
    (noEnd : mark ≠ ')' ∧ isIdentifierChar mark = false) :
    (Text.lastVisible (leading ++ '@' :: (word ++ list)) == some mark) = false := by
  obtain ⟨last, isLast, visible, ends⟩ := stands.exists_last
  have isVisible : isIndentChar last = false := by
    rw [Bool.eq_false_iff] at visible ⊢
    exact visible ∘ isBlankChar_of_isIndentChar
  rw [Text.lastVisible_of_getLast? (by rw [List.getLast?_append, isLast]; rfl) isVisible,
    beq_eq_false_iff_ne]
  intro same
  obtain rfl := Option.some.inj same
  rcases ends with closing | letter
  · exact noEnd.1 closing
  · rw [noEnd.2] at letter
    cases letter

/-- The rules find the annotation. -/
theorem isBareAnnotationLine_eq
    {leading : Text}
    (indents : leading.all isIndentChar = true) :
    isBareAnnotationLine (Text.startsWith · "export".toList)
      (leading ++ '@' :: (word ++ list)) = true := by
  have code : (LineParts.ofText (leading ++ '@' :: (word ++ list))).code.trim =
      '@' :: (word ++ list) := by
    have flush : Text.dropIndentation (leading ++ '@' :: (word ++ list)) = '@' :: (word ++ list) := by
      rw [Text.dropIndentation, List.dropWhile_append_of_pos (List.all_eq_true.mp indents)]
      rfl
    rw [LineParts.ofText, stands.scan_eq indents]
    dsimp only
    rw [flush, stands.trim_eq]
  unfold isBareAnnotationLine
  rw [code]
  split
  · rename_i named shape
    obtain rfl := (List.cons.inj shape).2
    rw [stands.firstWord_eq]
    dsimp only
    rw [stands.word_spec.1, Bool.true_and, stands.trim_list]
    rcases stands.closes with rfl | ⟨inner, rfl, closes⟩
    · rfl
    · have opens : Text.startsWith ('(' :: (inner ++ [')'])) ['('] = true := rfl
      rw [if_pos opens, closes]
      simp
  · rename_i noSign
    exact absurd rfl (noSign _)

/-- The classifier peels the annotation off, and nothing is left. -/
theorem ofCode_eq :
    Peeled.ofCode ('@' :: (word ++ list)) = ⟨.exported, [], true⟩ := by
  obtain ⟨starts, someLetter, _⟩ := stands.word_spec
  have kind : AnnotationKind.absent.stronger (.ofName word) = .exported := by
    obtain ⟨rest, rfl⟩ := List.isPrefixOf_iff_prefix.mp starts
    rfl
  have done (limit : Nat) : Peeled.within limit .exported true [] = ⟨.exported, [], true⟩ := by
    cases limit <;> rfl
  have sign : Text.afterHead? ('@' :: (word ++ list)) ['@'] = some (word ++ list) :=
    Text.afterHead?_eq_some_iff.mpr rfl
  rw [Peeled.ofCode, List.length_cons, Peeled.within, sign]
  dsimp only
  rw [stands.firstWord_eq]
  dsimp only
  rw [if_neg someLetter, kind]
  rcases stands.closes with rfl | ⟨inner, rfl, closes⟩
  · exact done _
  · have nothing : List.drop (inner.length + 1 + 1) ('(' :: (inner ++ [')'])) = [] := by
      simp
    have opens : Text.startsWith ('(' :: (inner ++ [')'])) ['('] = true := rfl
    rw [if_pos opens, closes]
    dsimp only
    rw [nothing]
    exact done _

/-- It takes the line for an annotation of exports, whatever stands above. -/
theorem classify_eq
    {leading : Text}
    (indents : leading.all isIndentChar = true)
    (context : Context) :
    classify context (leading ++ '@' :: (word ++ list)) = (.exportedField, true) := by
  have visible : Text.isBlank (leading ++ '@' :: (word ++ list)) = false :=
    Text.isBlank_eq_false_of_mem (List.mem_append_right _ List.mem_cons_self) (by decide)
  have blank : leading.all isBlankChar = true := by
    rw [List.all_eq_true] at indents ⊢
    exact fun character member => isBlankChar_of_isIndentChar (indents character member)
  have code : Text.trim (leading ++ '@' :: (word ++ list)) = '@' :: (word ++ list) := by
    rw [Text.trim_blank_append blank, stands.trim_eq]
  unfold classify
  dsimp only
  rw [visible, stands.scan_eq indents]
  dsimp only
  rw [code, stands.ofCode_eq]
  rfl

end StandsAsExport

/-! ## What is carried -/

/-- The annotation for arguments as they are split stands as one for exports. -/
theorem Carries.exists_standsAsExport
    {arguments : List Text}
    (trimmed : ∀ argument ∈ arguments, argument.trim = argument)
    {mark : Text}
    (carries : Carries arguments mark) :
    ∃ word list, mark = '@' :: (word ++ list) ∧ StandsAsExport word list ∧
      (list = [] ∨ ∃ inner taken, list = '(' :: (inner ++ [')']) ∧ taken <:+ arguments ∧
        splitArguments inner ∈ [taken, ['0'] :: taken, taken ++ ["\"exp\"".toList]]) := by
  have plainOf {name : Text} (named : isExportName name = true) : name.all isPlainChar = true :=
    (isMarkName_of_isExportName named).plain
  cases carries with
  | bare named =>
      obtain ⟨word, rfl, _⟩ := exists_word_of_isExportName named
      refine ⟨word, [], by rw [List.append_nil], ⟨named, .inl rfl, ?_⟩, .inl rfl⟩
      rw [List.append_nil]
      exact (isMarkName_of_isExportName named).isCodePart
  | @list name taken elements named isLast kept values =>
      obtain ⟨word, isName, _⟩ := exists_word_of_isExportName named
      have constantsTrimmed : ∀ constant ∈ markConstants, constant.trim = constant := by
        decide
      have elementsTrimmed : ∀ element ∈ elements, element.trim = element := fun element member =>
        (mem_of_kept kept element member).elim (fun isTaken => trimmed element (isLast.subset isTaken))
          (constantsTrimmed element)
      have good : ∀ element ∈ elements, IsClosed element ∧ ReadsInCode element :=
        fun element member => closed_and_reads_of_isHintValue (elementsTrimmed element member)
          (List.all_eq_true.mp values element member)
      have someElement : elements ≠ [[]] := by
        rintro rfl
        cases values
      obtain ⟨split, closes⟩ := exists_list_of_elements (fun element member => (good element member).1)
        elementsTrimmed someElement
      have shape : withArguments name elements =
          '@' :: (word ++ '(' :: (Text.joinWith ", ".toList elements ++ [')'])) := by
        simp [withArguments, isName]
      refine ⟨word, _, shape, ⟨isName ▸ named, .inr ⟨_, rfl, closes⟩, ?_⟩,
        .inr ⟨_, taken, rfl, isLast, by rwa [split]⟩⟩
      rw [← List.cons_append, ← isName]
      exact .list (plainOf named) (by simp [isName]) (by decide) (by simp) (by decide) (by decide) good

end ExportForm

/-! ## The field below -/

/-- Behind a visible text only the end is trimmed. -/
theorem Text.trim_visible_append
    {front : Text}
    (nonempty : front ≠ [])
    (visible : ∀ character ∈ front, isBlankChar character = false)
    (rest : Text) :
    Text.trim (front ++ rest) = front ++ Text.dropEndWhile isBlankChar rest := by
  have stays {text : Text} (nonempty : text ≠ [])
      (visible : ∀ character ∈ text, isBlankChar character = false) (rest : Text) :
      (text ++ rest).dropWhile isBlankChar = text ++ rest := by
    cases text with
    | nil =>
        exact absurd rfl nonempty
    | cons first others =>
        exact List.dropWhile_cons_of_neg (by simp [visible first List.mem_cons_self])
  have back := stays (List.reverse_ne_nil_iff.mpr nonempty)
    (fun character member => visible character (List.mem_reverse.mp member)) []
  rw [List.append_nil] at back
  rw [trim, stays nonempty visible, dropEndWhile, List.reverse_append, List.dropWhile_append, back,
    dropEndWhile]
  split
  · rename_i nothing
    rw [List.isEmpty_iff.mp nothing]
    simp
  · simp

/-- The first word of a line is the first word of its code. -/
theorem exists_code_of_firstWord
    {text word : Text}
    (isWord : (firstWord text).1 = word)
    (someLetter : word ≠ [])
    (visible : word.all (!isBlankChar ·) = true) :
    ∃ rest, (Scan.line none text).code.trim = word ++ rest ∧ firstWord (word ++ rest) = (word, rest) := by
  have letters : word.all isIdentifierChar = true :=
    isWord ▸ isIdentifierChar_firstWord text
  have parts : text = (text.indentation ++ word) ++ (firstWord text).2 := by
    conv_lhs => rw [firstWord_parts text, isWord]
    exact (List.append_assoc _ _ _).symm
  have notLetter := head?_firstWord text
  have indents : text.indentation.all isIndentChar = true :=
    List.all_eq_true.mpr fun _ member => List.mem_takeWhile_imp member
  generalize text.indentation = leading at parts indents
  generalize (firstWord text).2 = after at parts notLetter
  have frontPlain : (leading ++ word).all isPlainChar = true := by
    rw [List.all_append, all_isPlainChar_of_indent indents, all_isPlainChar_of_word letters,
      Bool.and_self]
  have frontQuiet := Scanning.all_isQuiet_of_plain frontPlain
  have code : (Scan.line none text).code = (leading ++ word) ++ (Scan.line none after).code := by
    have legible := Scanning.isLegible_of_quiet Scanning.isProper_code rfl frontQuiet
    rw [parts, Scanning.scan_eq, Scanning.scan_eq]
    refine (congrArg Scan.code (Scanning.scan_append legible after)).trans ?_
    rw [Scanning.through_code_of_quiet frontQuiet]
    rfl
  have blank : leading.all isBlankChar = true := by
    rw [List.all_eq_true] at indents ⊢
    exact fun character member => isBlankChar_of_isIndentChar (indents character member)
  refine ⟨Text.dropEndWhile isBlankChar (Scan.line none after).code, ?_, ?_⟩
  · rw [code, List.append_assoc, Text.trim_blank_append blank,
      Text.trim_visible_append someLetter (by simpa using visible)]
  · refine firstWord_eq_of_parts (rfl : List.all [] isIndentChar = true) letters someLetter ?_
    have isPrefix : Text.dropEndWhile isBlankChar (Scan.line none after).code <+: after := by
      have trimmed : Text.dropEndWhile isBlankChar (Scan.line none after).code <+:
          (Scan.line none after).code := by
        simpa [Text.dropEndWhile] using List.reverse_prefix.mpr
          (List.dropWhile_suffix isBlankChar : _ <:+ (Scan.line none after).code.reverse)
      exact trimmed.trans ⟨_, Scan.code_append_comment none after⟩
    intro character isFirst
    obtain ⟨behind, shape⟩ := isPrefix
    refine notLetter character ?_
    rw [← shape, List.head?_append, Option.mem_def, Option.mem_def.mp isFirst]
    rfl

/-- A declaration below an annotation for exports is an exported field. -/
theorem classify_of_var
    {context : Context}
    {text : Text}
    (declares : (firstWord text).1 = "var".toList)
    (pending : context.pendingKind = .exported)
    (opensNothing : context.previousOpens = false) :
    classify context text = (.exportedField, false) := by
  obtain ⟨rest, code, isWord⟩ := exists_code_of_firstWord declares (by decide) rfl
  have visible : text.isBlank = false :=
    Text.isBlank_eq_false_of_var declares
  have isField (limit : Nat) : Category.ofKeywordWithin context (context.unit.depth text) .exported
      (limit + 1) ("var".toList ++ rest) = .exportedField := by
    rw [Category.ofKeywordWithin, isWord]
    simp [Category.ofField, opensNothing]
  unfold classify
  dsimp only
  rw [visible, code]
  have bare : Peeled.ofCode ("var".toList ++ rest) = ⟨.absent, "var".toList ++ rest, false⟩ := rfl
  rw [bare, pending]
  exact Prod.ext (isField _) rfl

theorem LineParts.firstWord_withCode
    (text : Text)
    {code word : Text}
    (isWord : (firstWord code).1 = word)
    (someLetter : word ≠ []) :
    (firstWord ((LineParts.ofText text).withCode code)).1 = word := by
  have shape : (LineParts.ofText text).withCode code =
      ((LineParts.ofText text).indentation ++ code.indentation) ++
        (word ++ ((firstWord code).2 ++ (LineParts.ofText text).comment)) := by
    conv_lhs => rw [withCode, firstWord_parts code, isWord]
    simp only [List.append_assoc]
  have indents : ((LineParts.ofText text).indentation ++ code.indentation).all isIndentChar =
      true := by
    rw [List.all_append, Bool.and_eq_true]
    exact ⟨List.all_takeWhile, List.all_takeWhile⟩
  have letters : word.all isIdentifierChar = true :=
    isWord ▸ isIdentifierChar_firstWord code
  rw [shape, firstWord_eq_of_parts indents letters someLetter]
  intro character isFirst
  rw [List.head?_append] at isFirst
  cases behind : (firstWord code).2.head? with
  | some first =>
      rw [behind, Option.mem_def, Option.some_or] at isFirst
      exact head?_firstWord code character (behind.trans isFirst)
  | none =>
      rw [behind, Option.none_or] at isFirst
      rw [head?_comment text character isFirst]
      decide

theorem firstWord_withDeclaredType
    {declaration : Text}
    (declares : (firstWord declaration).1 = "var".toList)
    (type : Text) :
    (firstWord (withDeclaredType declaration type)).1 = "var".toList := by
  unfold withDeclaredType
  dsimp only
  split
  · exact declares
  · split
    · exact declares
    · simp only [List.append_assoc]
      rfl

/-- The arguments of a legacy export are split from a text. -/
theorem LegacyExport.exists_hint
    {code : Text}
    {legacy : LegacyExport}
    (found : ofCode? code = some legacy) :
    ∃ hint, legacy.arguments = splitArguments hint := by
  obtain ⟨_, _, _, _, hint, _⟩ := ofCode?_cases found
  generalize legacy.arguments = arguments at hint ⊢
  cases hint with
  | listed =>
      exact ⟨_, rfl⟩
  | bare =>
      exact ⟨[], rfl⟩

/-- What the rule for exports puts above a field, and what it leaves of it. -/
theorem exists_of_upliftExportedField
    {higher text declaration : Text}
    {replacement : Replacement}
    (matched : upliftExportedField higher text = some replacement)
    (annotated : replacement.others = [declaration]) :
    (∃ hint, replacement.first = (LineParts.ofText text).indentation ++
        (ExportForm.ofArguments (splitArguments hint)).mark) ∧
      ((firstWord declaration).1 = "onready".toList ∨ (firstWord declaration).1 = "var".toList) := by
  obtain ⟨legacy, found, rfl | rfl⟩ := upliftExportedField_eq_some matched
  · cases annotated
  · obtain ⟨hint, arguments⟩ := LegacyExport.exists_hint found
    have declares := firstWord_withDeclaredType (LegacyExport.declaration_var found)
      (ExportForm.ofArguments legacy.arguments).type
    obtain rfl := (List.cons.inj annotated).1
    refine ⟨⟨hint, by rw [arguments]⟩, ?_⟩
    split
    · exact .inl (LineParts.firstWord_withCode text rfl (by decide))
    · exact .inr (LineParts.firstWord_withCode text declares (by decide))

/-! ## In a file -/

/-- An annotation for exports and a declaration below it, wherever nothing is open above them. -/
theorem ExportForm.StandsAsExport.categories_eq
    {word list : Text}
    (stands : StandsAsExport word list)
    {leading : Text}
    (indents : leading.all isIndentChar = true)
    {mark field : Line}
    (isExport : mark.text = leading ++ '@' :: (word ++ list))
    (declares : (firstWord field.text).1 = "var".toList)
    {unit : IndentUnit}
    {above : List Line}
    (closed : Carry.neutral.through (above.map (·.text)) = .neutral)
    (below : List Line) :
    let lines := refreshLines unit (above ++ mark :: field :: below)
    (lines[above.length]?.map fun line => (line.text, line.category, line.annotationOnly)) =
        some (mark.text, .exportedField, true) ∧
      (lines[above.length + 1]?.map fun line => (line.text, line.category)) =
        some (field.text, .exportedField) := by
  intro lines
  have scan : Scan.line none mark.text = ⟨mark.text, [], 0, none⟩ := by
    rw [isExport, stands.scan_eq indents]
  have classified (context : Context) : classify context mark.text = (.exportedField, true) := by
    rw [isExport, stands.classify_eq indents]
  have handsOn : Carry.neutral.after (Scan.line Carry.neutral.openString mark.text) =
      .neutral := by
    have noBackslash : (Scan.line none mark.text).backslash = false := by
      rw [Scan.backslash_eq, scan, isExport, stands.lastVisible_ne (by decide), Bool.and_false]
    unfold Carry.after Carry.neutral
    dsimp only
    rw [noBackslash, scan]
    rfl
  have opensNothing : leadsBlock .neutral (mark :: field :: below) = false := by
    have completes : (Carry.neutral.after (Scan.line none mark.text)).isNeutral = true :=
      (Carry.isNeutral_iff _).mpr handsOn
    have noColon : opensBlock (Scan.line none mark.text).code = false := by
      rw [opensBlock, Text.endsWith_dropEndIndentation, scan, isExport]
      exact stands.lastVisible_ne (by decide)
    rw [leadsBlock, List.map_cons, Reading.lines, List.zip_cons_cons, statementOpens,
      Reading.completes]
    exact (if_pos completes).trans noColon
  have read : lines = readLines .neutral { unit := unit } above ++
      readLines .neutral (Context.belowAll { unit := unit } (readLines .neutral { unit := unit } above))
        (mark :: field :: below) :=
    readLines_append closed _ _
  generalize Context.belowAll { unit := unit } (readLines .neutral { unit := unit } above) = context
    at read
  rw [readLines_cons, handsOn, opensNothing, readLines_cons] at read
  have index := length_readLines .neutral { unit := unit } above
  generalize readLines .neutral { unit := unit } above = earlier at read index
  rw [read, ← index, List.getElem?_append_right (Nat.le_refl _),
    List.getElem?_append_right (Nat.le_succ _), Nat.sub_self, Nat.succ_sub (Nat.le_refl _),
    Nat.sub_self]
  have neutral : Carry.neutral.isNeutral = true := rfl
  constructor
  · simp [Line.readIn, neutral, classified]
  · have isField : classify (context.below (mark.readIn .neutral context false)) field.text =
        (.exportedField, false) := by
      refine classify_of_var declares ?_ ?_ <;>
        simp [Context.below, Context.pendingKind, Line.readIn, Line.isStatement, neutral, classified,
          Category.isTrivia]
    generalize context.below (mark.readIn .neutral context false) = next at isField ⊢
    simp [Line.readIn, neutral, isField]

/--
The annotation of an export carries the last of its hints, or none, and is taken
for what it is: by the rules, by the classifier wherever it stands, and in every
file in which it takes the place of an export, where the field below it is then
an exported one.
-/
theorem export_hints_are_carried_and_recognised
    (hint : Text)
    {leading : Text}
    (indents : leading.all isIndentChar = true)
    {unit : IndentUnit}
    {above below : List Line}
    {legacy : Line}
    (fresh : refreshLines unit (above ++ legacy :: below) = above ++ legacy :: below)
    (statement : legacy.isStatement = true)
    {higher declaration : Text}
    {replacement : Replacement}
    (matched : UpliftRule.exportedField.apply higher legacy.text = some replacement)
    (annotated : replacement.others = [declaration])
    (notDeferred : (firstWord declaration).1 ≠ "onready".toList) :
    let arguments := splitArguments hint
    let mark := (ExportForm.ofArguments arguments).mark
    let lines := refreshLines unit (above ++ (applyToLine .exportedField higher legacy).1 ++ below)
    ((∀ character ∈ mark, character ≠ '(' ∧ character ≠ ')') ∨
        ∃ name inner taken, mark = name ++ '(' :: (inner ++ [')']) ∧
          (∀ character ∈ name, character ≠ '(' ∧ character ≠ ')') ∧ taken <:+ arguments ∧
          splitArguments inner ∈ [taken, ['0'] :: taken, taken ++ ["\"exp\"".toList]]) ∧
      isBareAnnotationLine (Text.startsWith · "export".toList) (leading ++ mark) = true ∧
      (∀ context, classify context (leading ++ mark) = (.exportedField, true)) ∧
      (∃ own, replacement.first = (LineParts.ofText legacy.text).indentation ++
        (ExportForm.ofArguments (splitArguments own)).mark) ∧
      (lines[above.length]?.map fun line => (line.text, line.category, line.annotationOnly)) =
        some (replacement.first, .exportedField, true) ∧
      (lines[above.length + 1]?.map fun line => (line.text, line.category)) =
        some (declaration, .exportedField) := by
  intro arguments mark lines
  have trimmed (text : Text) : ∀ argument ∈ splitArguments text, argument.trim = argument := by
    intro argument member
    rw [splitArguments_eq] at member
    exact trim_of_mem_argumentsOf member
  have marks (text : Text) :=
    (ExportForm.carries_ofArguments (splitArguments text)).exists_standsAsExport (trimmed text)
  obtain ⟨⟨own, isFirst⟩, isWord⟩ := exists_of_upliftExportedField matched annotated
  have declares := isWord.resolve_left notDeferred
  obtain ⟨word, list, isMark, stands, carried⟩ := marks hint
  have isMark : mark = '@' :: (word ++ list) := isMark
  have noBrackets : ∀ character ∈ '@' :: word, character ≠ '(' ∧ character ≠ ')' := by
    refine List.forall_mem_cons.mpr ⟨by decide, fun character member => ?_⟩
    have letter := (stands.word_spec.2.2 character member).1
    constructor <;>
      · rintro rfl
        exact absurd letter (by decide)
  refine ⟨?_, ?_, ?_, ⟨own, isFirst⟩, ?_⟩
  · rcases carried with rfl | ⟨inner, taken, rfl, isLast, kept⟩
    · rw [List.append_nil] at isMark
      exact .inl (isMark ▸ noBrackets)
    · exact .inr ⟨'@' :: word, inner, taken, isMark, noBrackets, isLast, kept⟩
  · rw [isMark]
    exact stands.isBareAnnotationLine_eq indents
  · rw [isMark]
    exact stands.classify_eq indents
  · obtain ⟨ownWord, ownList, ownMark, ownStands, _⟩ := marks own
    have replaced : (applyToLine .exportedField higher legacy).1 =
        [{ legacy with text := replacement.first },
          { number := legacy.number, text := declaration }] := by
      unfold applyToLine
      rw [if_pos statement, matched]
      dsimp only
      rw [annotated]
      rfl
    have isLines : lines = refreshLines unit (above ++ { legacy with text := replacement.first } ::
        { number := legacy.number, text := declaration } :: below) := by
      dsimp only [lines]
      rw [replaced]
      simp
    rw [isLines]
    exact ownStands.categories_eq List.all_takeWhile (isFirst.trans (congrArg (_ ++ ·) ownMark))
      declares (closed_of_starts fresh (Line.continues_of_isStatement statement)) below

/-- An indented export of a file name, with marks in the filter. -/
def markedFilter : Line where
  number := 1
  text := "\texport(String, FILE, \"*.(a, #b\") var a = 1 # c".toList
  depth := 1
  category := .exportedField

/-- Marks in a filter are carried over and mislead no reader. -/
theorem marked_filter_is_carried_and_recognised :
    let marked := "\t@export_file(\"*.(a, #b\")".toList
    let field := "\tvar a: String = 1 # c".toList
    let lines := refreshLines .tabs ([] ++ (applyToLine .exportedField [] markedFilter).1 ++ [])
    UpliftRule.exportedField.apply [] markedFilter.text = some ⟨marked, [field], 1⟩ ∧
      (lines[0]?.map fun line => (line.text, line.category, line.annotationOnly)) =
        some (marked, .exportedField, true) ∧
      (lines[1]?.map fun line => (line.text, line.category)) = some (field, .exportedField) := by
  have matched : UpliftRule.exportedField.apply [] markedFilter.text =
      some ⟨"\t@export_file(\"*.(a, #b\")".toList, ["\tvar a: String = 1 # c".toList], 1⟩ := by
    decide +kernel
  have read := @export_hints_are_carried_and_recognised "String, FILE, \"*.(a, #b\"".toList
    "\t".toList (by decide) .tabs [] [] markedFilter (by decide +kernel) (by decide) []
    "\tvar a: String = 1 # c".toList _ matched rfl (by decide)
  exact ⟨matched, read.2.2.2.2⟩

end ScriptUplift
