import Mathlib.Tactic.Common
import ScriptUplift.Proofs.CallPieces
import ScriptUplift.Uplift.ExportHint

namespace ScriptUplift

/-!
# What export annotations are made of

An annotation of an export is a name, or a name with a list in brackets.  The
name begins with the sign for annotations and has no mark in it.  What stands in
the brackets is taken over from the arguments of the export, but for two
constants.
-/

namespace ExportForm

/-- The name of an annotation. -/
structure IsMarkName
    (name : Text) :
    Prop where
  sign : name.head? = some '@'
  plain : name.all isPlainChar = true

instance (name : Text) : Decidable (IsMarkName name) :=
  decidable_of_iff (name.head? = some '@' ∧ name.all isPlainChar = true)
    ⟨fun facts => ⟨facts.1, facts.2⟩, fun named => ⟨named.sign, named.plain⟩⟩

/-- What annotations hold that is no argument of the export. -/
def markConstants : List Text :=
  [['0'], "\"exp\"".toList]

/-- An annotation that is made of some of these arguments. -/
inductive IsMark
    (arguments : List Text) :
    Text → Prop
  | bare {name : Text} (named : IsMarkName name) :
      IsMark arguments name
  | list {name : String} {elements : List Text} (named : IsMarkName name.toList)
      (taken : ∀ element ∈ elements, element ∈ arguments ∨ element ∈ markConstants) :
      IsMark arguments (withArguments name elements)

/-! ## What is carried over -/

/-- The name of an annotation for exports: the sign, and a word that begins like the keyword. -/
def isExportName : Text → Bool
  | '@' :: word =>
      Text.startsWith word "export".toList &&
        word.all fun character => isIdentifierChar character && !isBlankChar character
  | _ =>
      false

/-- A hint that can be carried over: a numeral or a string literal. -/
def isHintValue
    (text : Text) :
    Bool :=
  isNumeral text || (stringLiteral? text).isSome

/--
An annotation for exports: a name, or a name with a list of the last arguments
in brackets, which may stand behind a zero or in front of the word for
exponential ranges.
-/
inductive Carries
    (arguments : List Text) :
    Text → Prop
  | bare {name : Text} (named : isExportName name = true) :
      Carries arguments name
  | list {name : String} {taken elements : List Text} (named : isExportName name.toList = true)
      (isLast : taken <:+ arguments)
      (kept : elements ∈ [taken, ['0'] :: taken, taken ++ ["\"exp\"".toList]])
      (values : elements.all isHintValue = true) :
      Carries arguments (withArguments name elements)

/-- What is carried is an argument or a constant. -/
theorem mem_of_kept
    {taken elements : List Text}
    (kept : elements ∈ [taken, ['0'] :: taken, taken ++ ["\"exp\"".toList]]) :
    ∀ element ∈ elements, element ∈ taken ∨ element ∈ markConstants := by
  intro element member
  simp only [List.mem_cons, List.not_mem_nil, or_false] at kept
  rcases kept with rfl | rfl | rfl
  · exact .inl member
  · refine (List.mem_cons.mp member).symm.imp_right fun zero => ?_
    rw [zero]
    exact List.mem_cons_self
  · refine (List.mem_append.mp member).imp_right fun word => ?_
    exact List.mem_cons_of_mem _ word

theorem Carries.of_suffix
    {fewer more : List Text}
    (isLast : fewer <:+ more)
    {mark : Text}
    (carries : Carries fewer mark) :
    Carries more mark := by
  cases carries with
  | bare named =>
      exact .bare named
  | list named isLastOfFewer kept values =>
      exact .list named (isLastOfFewer.trans isLast) kept values

/-- The last arguments, as they are. -/
theorem Carries.ofList
    {name : String}
    (named : isExportName name.toList = true)
    {taken arguments : List Text}
    (isLast : taken <:+ arguments)
    (values : taken.all isHintValue = true) :
    Carries arguments (withArguments name taken) :=
  .list named isLast List.mem_cons_self values

theorem all_isHintValue_of_numerals
    {hints : List Text}
    (numerals : hints.all isNumeral = true) :
    hints.all isHintValue = true := by
  rw [List.all_eq_true] at numerals ⊢
  exact fun hint member => by rw [isHintValue, numerals hint member, Bool.true_or]

theorem all_isHintValue_of_literals
    {hints : List Text}
    (literals : areStringLiterals hints = true) :
    hints.all isHintValue = true := by
  unfold areStringLiterals at literals
  rw [List.all_eq_true] at literals ⊢
  exact fun hint member => by rw [isHintValue, literals hint member, Bool.or_true]

/-- The characters of a name in which a word goes on. -/
theorem isExportName_append
    {start : Text}
    (named : isExportName start = true)
    {rest : Text}
    (word : (rest.all fun character => isIdentifierChar character && !isBlankChar character) = true) :
    isExportName (start ++ rest) = true := by
  unfold isExportName at named
  split at named
  · rename_i own
    rw [Bool.and_eq_true] at named
    rw [List.cons_append, isExportName, List.all_append, named.2, word, Bool.and_self, Bool.and_true]
    have starts := List.isPrefixOf_iff_prefix.mp named.1
    exact List.isPrefixOf_iff_prefix.mpr (starts.trans (List.prefix_append own rest))
  · cases named

theorem carries_of_rangeMark?
    {hints : List Text}
    {mark : Text}
    (built : rangeMark? hints = some mark) :
    Carries hints mark := by
  unfold rangeMark? at built
  split at built
  · cases built
  · rename_i notToo
    simp only [Bool.or_eq_true, not_or, Bool.not_eq_true', Bool.not_eq_false] at notToo
    have values := all_isHintValue_of_numerals notToo.2
    split at built
    · obtain rfl := Option.some.inj built
      have zero : isHintValue ['0'] = true := by
        decide
      refine .list (by decide) (List.suffix_refl hints)
        (List.mem_cons_of_mem _ List.mem_cons_self) ?_
      rw [List.all_cons, zero, values, Bool.and_self]
    · obtain rfl := Option.some.inj built
      exact .ofList (by decide) (List.suffix_refl hints) values

theorem carries_of_exponentialMark?
    {bounds : List Text}
    {mark : Text}
    (built : exponentialMark? bounds = some mark) :
    Carries bounds mark := by
  unfold exponentialMark? at built
  split at built
  · cases built
  · rename_i notToo
    simp only [Bool.or_eq_true, not_or, Bool.not_eq_true', Bool.not_eq_false] at notToo
    obtain rfl := Option.some.inj built
    have word : isHintValue "\"exp\"".toList = true := by
      decide
    refine .list (by decide) (List.suffix_refl bounds)
      (List.mem_cons_of_mem _ (List.mem_cons_of_mem _ List.mem_cons_self)) ?_
    rw [List.all_append, all_isHintValue_of_numerals notToo.2, List.all_cons, word]
    rfl

theorem carries_of_floatMark?
    {hints : List Text}
    {mark : Text}
    (built : floatMark? hints = some mark) :
    Carries hints mark := by
  unfold floatMark? at built
  split at built
  · split at built
    · obtain rfl := Option.some.inj built
      exact .bare (by decide)
    · cases built
  · split at built
    · exact (carries_of_exponentialMark? built).of_suffix (List.tail_suffix hints)
    · exact carries_of_rangeMark? built

theorem carries_of_choiceMark?
    {hints : List Text}
    {mark : Text}
    (built : choiceMark? hints = some mark) :
    Carries hints mark := by
  unfold choiceMark? at built
  split at built
  · rename_i literals
    obtain rfl := Option.some.inj built
    exact .ofList (by decide) (List.suffix_refl hints) (all_isHintValue_of_literals literals)
  · cases built

theorem isExportName_of_lookup_layerMarks
    {hint mark : Text}
    (found : layerMarks.lookup hint = some mark) :
    isExportName mark = true := by
  have names : ∀ pair ∈ layerMarks, isExportName pair.2 = true := by
    decide
  obtain ⟨above, below, shape, _⟩ := List.lookup_eq_some_iff.mp found
  exact names (hint, mark) (by simp [shape])

theorem carries_of_intMark?
    {hints : List Text}
    {mark : Text}
    (built : intMark? hints = some mark) :
    Carries hints mark := by
  unfold intMark? at built
  split at built
  · rename_i range isRange
    obtain rfl := Option.some.inj built
    exact carries_of_rangeMark? isRange
  · split at built
    · rename_i flags
      simp only [Bool.and_eq_true] at flags
      obtain rfl := Option.some.inj built
      exact .ofList (by decide) (List.tail_suffix hints) (all_isHintValue_of_literals flags.1.2)
    · split at built
      · split at built
        · rename_i layer isLayer
          obtain rfl := Option.some.inj built
          exact .bare (isExportName_of_lookup_layerMarks isLayer)
        · exact carries_of_choiceMark? built
      · exact carries_of_choiceMark? built

theorem carries_of_pathMark?
    {kind : String}
    (word : (kind.toList.all fun character => isIdentifierChar character && !isBlankChar character) =
      true)
    {filters : List Text}
    {mark : Text}
    (built : pathMark? kind filters = some mark) :
    Carries filters mark := by
  have prefixed {start : String} (named : isExportName start.toList = true) :
      isExportName (start ++ kind).toList = true := by
    rw [String.toList_append]
    exact isExportName_append named word
  have named : isExportName ((if filters.head? = some "GLOBAL".toList then "@export_global_"
      else "@export_") ++ kind).toList = true := by
    split <;> exact prefixed (by decide)
  have isLast : (if filters.head? = some "GLOBAL".toList then filters.tail else filters) <:+
      filters := by
    split
    · exact List.tail_suffix filters
    · exact List.suffix_refl filters
  unfold pathMark? at built
  dsimp only at built
  generalize (if filters.head? = some "GLOBAL".toList then "@export_global_" else "@export_") ++
    kind = name at named built
  generalize (if filters.head? = some "GLOBAL".toList then filters.tail else filters) = patterns
    at isLast built
  split at built
  · cases built
  · rename_i literals
    rw [Bool.not_eq_true', Bool.not_eq_false] at literals
    split at built
    · obtain rfl := Option.some.inj built
      exact .bare named
    · obtain rfl := Option.some.inj built
      exact .ofList named isLast (all_isHintValue_of_literals literals)

theorem carries_of_stringMark?
    {hints : List Text}
    {mark : Text}
    (built : stringMark? hints = some mark) :
    Carries hints mark := by
  unfold stringMark? at built
  split at built
  · exact (carries_of_pathMark? (by decide) built).of_suffix (List.tail_suffix hints)
  · split at built
    · exact (carries_of_pathMark? (by decide) built).of_suffix (List.tail_suffix hints)
    · split at built
      · split at built
        · obtain rfl := Option.some.inj built
          exact .bare (by decide)
        · cases built
      · exact carries_of_choiceMark? built

/-- Only four types have hints, and their annotations carry these. -/
theorem carries_of_hintMark?
    {type : Text}
    {hints : List Text}
    {mark : Text}
    (built : hintMark? type hints = some mark) :
    Carries hints mark ∧ type ∈ ["int", "float", "String", "Color"].map String.toList := by
  unfold hintMark? at built
  split at built
  · rename_i isInt
    exact ⟨carries_of_intMark? built, isInt ▸ by decide⟩
  · split at built
    · rename_i isFloat
      exact ⟨carries_of_floatMark? built, isFloat ▸ by decide⟩
    · split at built
      · rename_i isString
        exact ⟨carries_of_stringMark? built, isString ▸ by decide⟩
      · split at built
        · rename_i isColor
          unfold colorMark? at built
          split at built
          · obtain rfl := Option.some.inj built
            exact ⟨.bare (by decide), isColor ▸ by decide⟩
          · cases built
        · cases built

/-- The annotation of an export carries its last hints, or none. -/
theorem carries_ofArguments
    (arguments : List Text) :
    Carries arguments (ofArguments arguments).mark := by
  have carriesNone : Carries arguments bare.mark :=
    .bare (by decide)
  unfold ofArguments
  split
  · exact carriesNone
  · split <;> exact carriesNone
  · split
    · rename_i built
      exact (carries_of_hintMark? built).1.of_suffix (List.suffix_cons _ _)
    · exact carriesNone

theorem isMarkName_of_isExportName
    {name : Text}
    (named : isExportName name = true) :
    IsMarkName name := by
  unfold isExportName at named
  split at named
  · rename_i word
    have letters := (Bool.and_eq_true_iff.mp named).2
    refine ⟨rfl, ?_⟩
    rw [List.all_cons, all_isPlainChar_of_word]
    · decide
    · rw [List.all_eq_true] at letters ⊢
      exact fun character member => (Bool.and_eq_true_iff.mp (letters character member)).1
  · cases named

/-- The annotation of an export is made of its arguments. -/
theorem isMark_ofArguments
    (arguments : List Text) :
    IsMark arguments (ofArguments arguments).mark := by
  have made {mark : Text} (carries : Carries arguments mark) : IsMark arguments mark := by
    cases carries with
    | bare named =>
        exact .bare (isMarkName_of_isExportName named)
    | list named isLast kept _ =>
        refine .list (isMarkName_of_isExportName named) fun element member => ?_
        exact (mem_of_kept kept element member).imp_left (isLast.subset ·)
  exact made (carries_ofArguments arguments)

/-- A type that an export pins down has no mark in its name. -/
theorem isPlain_type_ofArguments
    (arguments : List Text) :
    (ofArguments arguments).type.all isPlainChar = true := by
  have stable : ∀ type ∈ stableTypes, type.all isPlainChar = true := by
    decide
  have hinted : ∀ type ∈ ["int", "float", "String", "Color"].map String.toList,
      type.all isPlainChar = true := by
    decide
  unfold ofArguments
  split
  · rfl
  · split
    · rename_i isStable
      exact stable _ (List.contains_iff_mem.mp isStable)
    · rfl
  · split
    · rename_i built
      exact hinted _ (carries_of_hintMark? built).2
    · rfl

end ExportForm

end ScriptUplift
