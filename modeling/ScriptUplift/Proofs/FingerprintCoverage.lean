import ScriptUplift.Config.Fingerprint
import ScriptUplift.Proofs.Completion
import ScriptUplift.Proofs.PackedReading

namespace ScriptUplift

/-!
# What the fingerprint covers

Configurations with the same packed settings build pipelines that do the same to
every file.  The packed settings can be taken apart again as far as the pipeline
depends on them, also where a length is too large for its four bytes: the keys
between the settings begin with a byte that continues a character and begins
none, so that no text runs over into a key unnoticed.
-/

open Packed

namespace Config

/-- The packed settings in front of the list of disabled rules. -/
def openingBytes : List UInt8 :=
  0x86 :: (text "engine" ++ (integer engineRevision ++ text "disabled"))

/-- The packed settings from the last key on. -/
def canonicalBytes
    (config : Config) :
    List UInt8 :=
  text "canonical" ++ [if config.canonical then 0xc3 else 0xc2]

/-- The packed settings behind the key of the indentation width. -/
def widthBytes
    (config : Config) :
    List UInt8 :=
  integer config.indentWidth ++
    (text "wrapper_name" ++ (text config.wrapperName ++ config.canonicalBytes))

/-- The packed settings behind the key of the indentation style. -/
def styleBytes
    (config : Config) :
    List UInt8 :=
  text config.indentStyle ++ (text "indent_width" ++ config.widthBytes)

theorem fingerprintBytes_eq
    (config : Config) :
    config.fingerprintBytes =
      openingBytes ++ (Packed.value (if config.sortedDisabledRules.isEmpty then .nothing
        else .list config.sortedDisabledRules) ++
          (text "indent_style" ++ config.styleBytes)) := by
  simp [fingerprintBytes, Packed.record, openingBytes, styleBytes, widthBytes, canonicalBytes,
    Packed.value]

/--
Bytes that read as texts, the key of the indentation style, its value, and the
key of the indentation width.
-/
def ReadsStyleKey
    (bytes : List UInt8) :
    Prop :=
  ∃ (items : List String) (style : String) (more : List UInt8),
    bytes = items.flatMap text ++
      (text "indent_style" ++ (text style ++ (text "indent_width" ++ more)))

/-- Bytes in which a long text begins soon and a style key is read after it. -/
def RunsOver
    (bytes : List UInt8) :
    Prop :=
  ∃ (between : List UInt8) (long : Text) (after : List UInt8),
    between.length ≤ 4 ∧ 0x100 ≤ (Text.utf8 long).length ∧ ReadsStyleKey after ∧
      bytes = between ++ (Text.utf8 long ++ after)

theorem ReadsStyleKey.length_le
    {bytes : List UInt8}
    (reads : ReadsStyleKey bytes) :
    26 ≤ bytes.length := by
  obtain ⟨items, style, more, rfl⟩ := reads
  have styleKey : (text "indent_style").length = 13 := by
    decide
  have widthKey : (text "indent_width").length = 13 := by
    decide
  simp only [List.length_append, styleKey, widthKey]
  omega

/-- What reads as texts and a key begins with a text. -/
theorem ReadsStyleKey.exists_text
    {bytes : List UInt8}
    (reads : ReadsStyleKey bytes) :
    ∃ (string : String) (after : List UInt8), bytes = text string ++ after := by
  obtain ⟨items, style, more, rfl⟩ := reads
  cases items with
  | nil =>
      exact ⟨_, _, rfl⟩
  | cons item items =>
      exact ⟨item, _, List.append_assoc _ _ _⟩

/-- A character whose first byte opens a packed text has more bytes. -/
theorem length_pos_of_opensText
    {character : Char}
    {first : UInt8}
    {others : List UInt8}
    (spelled : String.utf8EncodeChar character = first :: others)
    (opens : OpensText first) :
    0 < others.length := by
  cases others with
  | nil =>
      have low := Text.lt_of_utf8EncodeChar_eq_singleton spelled
      rcases opens with ⟨high, _⟩ | ⟨high, _⟩
      · exact absurd low (UInt8.not_lt.mpr (UInt8.le_trans (by decide) high))
      · exact absurd low (UInt8.not_lt.mpr (UInt8.le_trans (by decide) high))
  | cons second others =>
      exact Nat.succ_pos _

/--
A packed text that is read from the start of a character on ends where a later
character starts, or it is long and begins right behind the characters.
-/
theorem exists_rest_or_overrun
    {character : Char}
    {rest : Text}
    {byte : UInt8}
    {after bytes : List UInt8}
    {item : String}
    (read : Text.utf8 (character :: rest) ++ byte :: after = text item ++ bytes)
    (continues : ¬byte.IsUTF8FirstByte) :
    (∃ left, bytes = Text.utf8 left ++ byte :: after) ∨
      ∃ between : List UInt8, between.length ≤ 4 ∧
        0x100 ≤ (Text.utf8 item.toList).length ∧
        after = between ++ (Text.utf8 item.toList ++ bytes) := by
  obtain ⟨top, others, headSpelled, _, opens, long, veryLong⟩ :=
    exists_textHead (Text.utf8 item.toList).length
  have headLength := length_textHead_le (Text.utf8 item.toList).length
  obtain ⟨first, more, spelled, isFirst, _⟩ := Text.exists_first_of_utf8EncodeChar character
  rw [text_eq, List.append_assoc, headSpelled] at read
  rw [headSpelled, List.length_cons] at headLength
  obtain rfl : first = top := by
    rw [Text.utf8_cons, spelled] at read
    exact (List.cons.inj read).1
  obtain ⟨start, contentRest, content⟩ :
      ∃ start contentRest, Text.utf8 item.toList = start :: contentRest :=
    List.exists_cons_of_length_pos (Nat.lt_of_lt_of_le (by decide) (long isFirst))
  have startIsFirst : start.IsUTF8FirstByte := Text.isFirst_of_utf8_eq_cons content
  have cut : Text.utf8 (character :: rest) ++ byte :: after =
      (first :: others) ++ start :: (contentRest ++ bytes) := by
    rw [read, content]
    rfl
  rcases Text.exists_split_of_utf8_append_eq cut startIsFirst with
    ⟨before, later, _, _, laterBytes⟩ | ⟨between, headBytes, afterBytes⟩
  · rw [← List.cons_append, ← content] at laterBytes
    obtain ⟨left, _, bytesLeft⟩ := Text.exists_suffix_of_utf8_append_eq laterBytes continues
    exact .inl ⟨left, bytesLeft⟩
  cases between with
  | nil =>
      exact absurd startIsFirst ((List.cons.inj afterBytes).1 ▸ continues)
  | cons head between =>
      have lengths := congrArg List.length headBytes
      have wide := length_pos_of_opensText spelled opens
      simp only [Text.utf8_cons, spelled, List.cons_append, List.length_cons,
        List.length_append] at lengths
      refine .inr ⟨between, by omega, veryLong (by omega), ?_⟩
      rw [(List.cons.inj afterBytes).2, content]
      rfl

/--
A key that is read in the rest of a text and in what follows it is read in what
follows it, unless a long text begins inside of the text's end.
-/
theorem ReadsStyleKey.after_utf8
    {rest : Text}
    {byte : UInt8}
    {after : List UInt8}
    (reads : ReadsStyleKey (Text.utf8 rest ++ byte :: after))
    (continues : ¬byte.IsUTF8FirstByte) :
    ReadsStyleKey (byte :: after) ∨ RunsOver after := by
  obtain ⟨items, style, more, read⟩ := reads
  induction items generalizing rest with
  | nil =>
      cases rest with
      | nil =>
          exact .inl ⟨[], style, more, read⟩
      | cons character rest =>
          obtain ⟨first, others, spelled, isFirst, _⟩ :=
            Text.exists_first_of_utf8EncodeChar character
          have keyed : ∃ bytes, text "indent_style" = 0xac :: bytes := ⟨_, rfl⟩
          obtain ⟨bytes, key⟩ := keyed
          rw [Text.utf8_cons, spelled, key] at read
          obtain rfl : first = 0xac := (List.cons.inj read).1
          exact absurd isFirst (by decide)
  | cons item items inductionHypothesis =>
      rw [List.flatMap_cons, List.append_assoc] at read
      cases rest with
      | nil =>
          exact .inl ⟨item :: items, style, more, by simpa using read⟩
      | cons character rest =>
          rcases exists_rest_or_overrun read continues with
            ⟨left, read⟩ | ⟨between, short, long, overrun⟩
          · exact inductionHypothesis read.symm
          · exact .inr ⟨between, item.toList, _, short, long, ⟨items, style, more, rfl⟩, overrun⟩

/-- The keys behind a text begin with a byte that begins no character. -/
theorem widthKey_eq :
    text "indent_width" = 0xac :: Text.utf8 "indent_width".toList :=
  rfl

theorem canonicalBytes_eq
    (config : Config) :
    config.canonicalBytes =
      0xa9 :: (Text.utf8 "canonical".toList ++ [if config.canonical then 0xc3 else 0xc2]) :=
  rfl

/-- The last setting has no room for a key of the indentation style. -/
theorem not_readsStyleKey_canonicalBytes
    {config : Config}
    {rest : Text} :
    ¬ReadsStyleKey (Text.utf8 rest ++ config.canonicalBytes) := by
  intro reads
  rw [canonicalBytes_eq] at reads
  have keyLength : (Text.utf8 "canonical".toList).length = 9 := by
    decide
  rcases reads.after_utf8 (by decide) with key | ⟨between, long, after, _, size, _, overrun⟩
  · have room := key.length_le
    simp only [List.length_cons, List.length_append, keyLength, List.length_nil] at room
    omega
  · have room := congrArg List.length overrun
    simp only [List.length_append, List.length_cons, keyLength, List.length_nil] at room
    omega

/-- The wrapper name is not the rest of a text behind which a style key is read. -/
theorem not_readsStyleKey_after_wrapperName
    {config : Config}
    {long : Text}
    {after : List UInt8}
    (overrun : text config.wrapperName ++ config.canonicalBytes = Text.utf8 long ++ after)
    (size : 17 ≤ (Text.utf8 long).length) :
    ¬ReadsStyleKey after := by
  intro reads
  have headLength := length_textHead_le (Text.utf8 config.wrapperName.toList).length
  rw [text_eq, List.append_assoc] at overrun
  cases content : Text.utf8 config.wrapperName.toList with
  | nil =>
      have lengths := congrArg List.length overrun
      have keyLength : config.canonicalBytes.length = 11 := rfl
      simp only [List.length_append, content, keyLength, List.length_nil] at lengths headLength
      omega
  | cons start others =>
      have startIsFirst : start.IsUTF8FirstByte := Text.isFirst_of_utf8_eq_cons content
      have cut : Text.utf8 long ++ after =
          textHead (Text.utf8 config.wrapperName.toList).length ++
            start :: (others ++ config.canonicalBytes) := by
        rw [← overrun, content]
        rfl
      rcases Text.exists_split_of_utf8_append_eq cut startIsFirst with
        ⟨before, rest, _, _, restBytes⟩ | ⟨between, headBytes, _⟩
      · rw [← List.cons_append, ← content] at restBytes
        obtain ⟨left, _, afterCut⟩ :=
          Text.exists_suffix_of_utf8_append_eq restBytes.symm (by decide)
        rw [afterCut] at reads
        exact not_readsStyleKey_canonicalBytes reads
      · have lengths := congrArg List.length headBytes
        rw [List.length_append] at lengths
        omega

/-- No long text begins in the key of the width and ends before a style key. -/
theorem not_runsOver_widthKey
    (config : Config) :
    ¬RunsOver (Text.utf8 "indent_width".toList ++ config.widthBytes) := by
  rintro ⟨between, long, after, short, size, reads, overrun⟩
  -- The text would hold the last character of the key before the wrapper name.
  have keyEnd : text "wrapper_name" = (0xac :: Text.utf8 "wrapper_nam".toList) ++ [0x65] :=
    rfl
  have widthLength : (Text.utf8 "indent_width".toList).length = 12 := by
    decide
  have wrapperLength : (Text.utf8 "wrapper_nam".toList).length = 11 := by
    decide
  have numberLength := length_integer_le config.indentWidth
  have regrouped :
      (Text.utf8 "indent_width".toList ++ (integer config.indentWidth ++
          0xac :: Text.utf8 "wrapper_nam".toList)) ++
        0x65 :: (text config.wrapperName ++ config.canonicalBytes) =
      between ++ (Text.utf8 long ++ after) := by
    rw [← overrun, widthBytes, keyEnd]
    simp only [List.append_assoc, List.cons_append, List.nil_append]
  rcases List.append_eq_append_iff.mp regrouped with
    ⟨more, betweenCut, _⟩ | ⟨front, frontCut, longCut⟩
  · have lengths := congrArg List.length betweenCut
    simp only [List.length_append, List.length_cons, widthLength, wrapperLength] at lengths
    omega
  have frontLength := congrArg List.length frontCut
  simp only [List.length_append, List.length_cons, widthLength, wrapperLength] at frontLength
  rcases Text.exists_split_of_utf8_append_eq longCut (by decide) with
    ⟨before, rest, rfl, beforeBytes, restBytes⟩ | ⟨_, frontBytes, _⟩
  · cases rest with
    | nil =>
        rw [List.append_nil, beforeBytes] at size
        omega
    | cons character rest =>
        have letter : String.utf8EncodeChar 'e' = [0x65] := by
          decide
        rw [Text.utf8_cons, List.append_assoc, ← List.singleton_append, ← letter] at restBytes
        obtain ⟨rfl, afterLetter⟩ := Text.utf8EncodeChar_append_inj restBytes
        refine not_readsStyleKey_after_wrapperName afterLetter.symm ?_ reads
        rw [Text.utf8_append, Text.utf8_cons, letter, List.length_append, beforeBytes,
          List.length_append, List.length_singleton] at size
        omega
  · have lengths := congrArg List.length frontBytes
    rw [List.length_append] at lengths
    omega

/-- Behind the key of the indentation width there is a number, and no text. -/
theorem widthBytes_ne_text
    (config : Config)
    (string : String)
    (after : List UInt8) :
    config.widthBytes ≠ text string ++ after :=
  integer_append_ne_text config.indentWidth string _ after

/-- No key of the indentation style is read from the key of the width on. -/
theorem not_readsStyleKey_widthKey
    (config : Config) :
    ¬ReadsStyleKey (text "indent_width" ++ config.widthBytes) := by
  have shortKey : (Text.utf8 "indent_width".toList).length < 32 := by
    decide
  rintro ⟨items, style, more, read⟩
  cases items with
  | nil =>
      have sameKey := (short_text_append_inj shortKey read).1
      exact absurd sameKey (by decide)
  | cons item items =>
      rw [List.flatMap_cons, List.append_assoc] at read
      have behind : ReadsStyleKey config.widthBytes :=
        ⟨items, style, more, (short_text_append_inj shortKey read).2⟩
      obtain ⟨string, after, spelled⟩ := behind.exists_text
      exact config.widthBytes_ne_text string after spelled

/-- No second key of the indentation style is read behind the first one. -/
theorem not_readsStyleKey_styleBytes
    (config : Config) :
    ¬ReadsStyleKey config.styleBytes := by
  rintro ⟨items, style, more, read⟩
  cases items with
  | nil =>
      -- The style itself would be spelled like its key, and the width like a text.
      have behindStyle : text "indent_width" ++ config.widthBytes =
          text style ++ (text "indent_width" ++ more) :=
        (short_text_append_inj (by decide) read.symm).2.symm
      have behindWidth : config.widthBytes = text "indent_width" ++ more :=
        (short_text_append_inj (by decide) behindStyle).2
      exact config.widthBytes_ne_text _ _ behindWidth
  | cons item items =>
      rw [List.flatMap_cons, List.append_assoc] at read
      obtain ⟨_, bytes⟩ := text_append_heads read
      rw [widthKey_eq, List.cons_append] at bytes
      obtain ⟨rest, _, behind⟩ := Text.exists_suffix_of_utf8_append_eq bytes (by decide)
      have reads :
          ReadsStyleKey (Text.utf8 rest ++
            0xac :: (Text.utf8 "indent_width".toList ++ config.widthBytes)) :=
        ⟨items, style, more, behind.symm⟩
      rcases reads.after_utf8 (by decide) with atKey | overrun
      · exact config.not_readsStyleKey_widthKey atKey
      · exact config.not_runsOver_widthKey overrun

/-- Settings with the same bytes behind the style key are the same. -/
theorem eq_of_styleBytes_eq
    {first second : Config}
    (firstWord : IsWord first.indentWidth)
    (secondWord : IsWord second.indentWidth)
    (same : first.styleBytes = second.styleBytes) :
    first.indentStyle = second.indentStyle ∧
      first.indentWidth = second.indentWidth ∧
      first.wrapperName = second.wrapperName ∧
      first.canonical = second.canonical := by
  obtain ⟨sameStyle, same⟩ :=
    text_append_inj (by simpa only [styleBytes, widthKey_eq, List.cons_append] using same)
      (by decide) (by decide)
  have sameWidthBytes := List.append_cancel_left (List.cons.inj same).2
  obtain ⟨sameWidth, same⟩ := integer_append_inj firstWord secondWord sameWidthBytes
  obtain ⟨sameName, same⟩ :=
    text_append_inj (by simpa only [canonicalBytes_eq] using List.append_cancel_left same)
      (by decide) (by decide)
  have sameFlag := List.append_cancel_left (List.cons.inj same).2
  refine ⟨sameStyle, sameWidth, sameName, ?_⟩
  cases firstFlag : first.canonical <;> cases secondFlag : second.canonical <;>
    simp [firstFlag, secondFlag] at sameFlag ⊢

/-- A name that a packed list can hold without being taken for a key. -/
def IsListedName
    (name : String) :
    Prop :=
  (Text.utf8 name.toList).length < 32 ∧ name ≠ "indent_style"

/-- Lists of names of rules are read back from the packed settings, whatever is read beside. -/
theorem eq_of_listed_eq
    {names others : List String}
    {first second : Config}
    (listed : ∀ name ∈ names, IsListedName name)
    (same : names.flatMap text ++ (text "indent_style" ++ first.styleBytes) =
      others.flatMap text ++ (text "indent_style" ++ second.styleBytes)) :
    names = others ∧ first.styleBytes = second.styleBytes := by
  have shortKey : (Text.utf8 "indent_style".toList).length < 32 := by
    decide
  induction names generalizing others with
  | nil =>
      cases others with
      | nil =>
          exact ⟨rfl, List.append_cancel_left same⟩
      | cons other others =>
          rw [List.flatMap_cons, List.append_assoc] at same
          have behind := (short_text_append_inj shortKey same).2
          exact absurd ⟨others, _, _, behind⟩ first.not_readsStyleKey_styleBytes
  | cons name names inductionHypothesis =>
      obtain ⟨short, noKey⟩ := listed name List.mem_cons_self
      rw [List.flatMap_cons, List.append_assoc] at same
      cases others with
      | nil =>
          exact absurd (short_text_append_inj short same).1 noKey
      | cons other others =>
          rw [List.flatMap_cons, List.append_assoc] at same
          obtain ⟨rfl, sameRest⟩ := short_text_append_inj short same
          obtain ⟨rfl, sameStyle⟩ :=
            inductionHypothesis (fun later member => listed later (List.mem_cons_of_mem _ member))
              sameRest
          exact ⟨rfl, sameStyle⟩

/-- Whether every disabled rule exists. -/
def OnlyKnownRules
    (config : Config) :
    Prop :=
  ∀ name ∈ config.disabledRules, ∃ rule : UpliftRule, rule.name = name

/-- The name of a rule is short and no key. -/
theorem isListedName_name
    (rule : UpliftRule) :
    IsListedName rule.name := by
  cases rule <;> exact ⟨by decide, by decide⟩

/-- The sorted list is a reordering of the list. -/
theorem sortedDisabledRules_perm
    (config : Config) :
    config.sortedDisabledRules.Perm config.disabledRules :=
  List.mergeSort_perm _ _

theorem pairwise_sortedDisabledRules
    (config : Config) :
    config.sortedDisabledRules.Pairwise fun name later => decide (name ≤ later) = true := by
  unfold sortedDisabledRules
  refine List.pairwise_mergeSort ?_ ?_ config.disabledRules
  · intro name later last less lessLater
    exact decide_eq_true
      (String.le_trans (of_decide_eq_true less) (of_decide_eq_true lessLater))
  · intro name later
    simpa only [Bool.or_eq_true, decide_eq_true_eq] using String.le_total name later

/-- Packed settings that agree where the first names rules only agree on all of them. -/
theorem settings_eq_of_fingerprintBytes_eq
    {first second : Config}
    (firstWord : IsWord first.indentWidth)
    (secondWord : IsWord second.indentWidth)
    (known : first.OnlyKnownRules)
    (same : first.fingerprintBytes = second.fingerprintBytes) :
    first.sortedDisabledRules = second.sortedDisabledRules ∧
      first.indentStyle = second.indentStyle ∧
      first.indentWidth = second.indentWidth ∧
      first.wrapperName = second.wrapperName ∧
      first.canonical = second.canonical := by
  rw [fingerprintBytes_eq, fingerprintBytes_eq] at same
  have sameSettings := List.append_cancel_left same
  cases firstRules : first.sortedDisabledRules with
  | nil =>
      cases secondRules : second.sortedDisabledRules with
      | nil =>
          refine ⟨rfl, eq_of_styleBytes_eq firstWord secondWord ?_⟩
          rw [firstRules, secondRules] at sameSettings
          exact List.append_cancel_left (List.append_cancel_left sameSettings)
      | cons other others =>
          rw [firstRules, secondRules] at sameSettings
          exact absurd sameSettings.symm (list_append_ne_nothing (other :: others) _ _)
  | cons name names =>
      cases secondRules : second.sortedDisabledRules with
      | nil =>
          rw [firstRules, secondRules] at sameSettings
          exact absurd sameSettings (list_append_ne_nothing (name :: names) _ _)
      | cons other others =>
          rw [firstRules, secondRules] at sameSettings
          simp only [List.isEmpty_cons, Bool.false_eq_true, if_false, Packed.value, list_eq,
            List.append_assoc] at sameSettings
          have sameLists :=
            ((isHead_listHead _).append_inj (isHead_listHead _) sameSettings).2
          have listed : ∀ rule ∈ name :: names, IsListedName rule := by
            intro listedName member
            rw [← firstRules] at member
            obtain ⟨rule, rfl⟩ :=
              known listedName (first.sortedDisabledRules_perm.mem_iff.mp member)
            exact isListedName_name rule
          obtain ⟨sameRules, sameStyle⟩ := eq_of_listed_eq listed sameLists
          exact ⟨sameRules, eq_of_styleBytes_eq firstWord secondWord sameStyle⟩

/-- Configurations that agree on all that the fingerprint covers, up to the order of a list. -/
structure SameCovered
    (first second : Config) :
    Prop where
  disabledRules : first.disabledRules.Perm second.disabledRules
  indentStyle : first.indentStyle = second.indentStyle
  indentWidth : first.indentWidth = second.indentWidth
  wrapperName : first.wrapperName = second.wrapperName
  canonical : first.canonical = second.canonical

/-- Sorting forgets the order of the disabled rules. -/
theorem SameCovered.sortedDisabledRules_eq
    {first second : Config}
    (same : SameCovered first second) :
    first.sortedDisabledRules = second.sortedDisabledRules := by
  have reordered : first.sortedDisabledRules.Perm second.sortedDisabledRules :=
    first.sortedDisabledRules_perm.trans
      (same.disabledRules.trans second.sortedDisabledRules_perm.symm)
  exact reordered.eq_of_pairwise
    (fun _ _ _ _ less greater =>
      String.le_antisymm (of_decide_eq_true less) (of_decide_eq_true greater))
    first.pairwise_sortedDisabledRules second.pairwise_sortedDisabledRules

theorem SameCovered.fingerprintBytes_eq
    {first second : Config}
    (same : SameCovered first second) :
    first.fingerprintBytes = second.fingerprintBytes := by
  unfold fingerprintBytes
  rw [same.sortedDisabledRules_eq, same.indentStyle, same.indentWidth, same.wrapperName,
    same.canonical]

/-- Packed settings that agree where the first names rules only agree on all that is covered. -/
theorem SameCovered.of_fingerprintBytes_eq
    {first second : Config}
    (firstWord : IsWord first.indentWidth)
    (secondWord : IsWord second.indentWidth)
    (known : first.OnlyKnownRules)
    (same : first.fingerprintBytes = second.fingerprintBytes) :
    SameCovered first second := by
  obtain ⟨sameRules, sameStyle, sameWidth, sameName, sameCanonical⟩ :=
    settings_eq_of_fingerprintBytes_eq firstWord secondWord known same
  have reordered : first.disabledRules.Perm second.disabledRules :=
    first.sortedDisabledRules_perm.symm.trans
      ((List.Perm.of_eq sameRules).trans second.sortedDisabledRules_perm)
  exact ⟨reordered, sameStyle, sameWidth, sameName, sameCanonical⟩

end Config

namespace Pipeline

open Config

/-- No pipeline is built when a disabled rule does not exist. -/
theorem exists_error_of_not_onlyKnownRules
    {config : Config}
    (unknown : ¬config.OnlyKnownRules) :
    ∃ rule, ofConfig config = .error rule := by
  cases found : unknownRule? config with
  | some rule =>
      exact ⟨rule, by rw [ofConfig, found]⟩
  | none =>
      rw [unknownRule?, Option.map_eq_none_iff, List.find?_eq_none] at found
      refine absurd (fun name member => ?_) unknown
      have isKnown : (UpliftRule.ofName? name).isSome := by
        simpa [Option.isSome_iff_ne_none] using found name member
      obtain ⟨rule, isRule⟩ := Option.isSome_iff_exists.mp isKnown
      exact ⟨rule, by simpa using List.find?_some isRule⟩

/-- The order of the disabled rules does not change which rules remain. -/
theorem enabled_eq_of_perm
    {first second : List String}
    (reordered : first.Perm second) :
    UpliftRule.enabled first = UpliftRule.enabled second := by
  unfold UpliftRule.enabled
  refine List.filter_congr fun rule _ => ?_
  rw [Bool.eq_iff_iff]
  simp [reordered.mem_iff]

/-- Settings that agree on what is covered build the same pipeline. -/
theorem ofConfig_eq_of_sameCovered
    {first second : Config}
    (same : SameCovered first second)
    (known : first.OnlyKnownRules) :
    ofConfig first = ofConfig second := by
  have secondKnown : second.OnlyKnownRules :=
    fun name member => known name (same.disabledRules.mem_iff.mpr member)
  rw [ofConfig_eq_ok known, ofConfig_eq_ok secondKnown]
  simp only [stagesOf, countersOf, enabled_eq_of_perm same.disabledRules, same.indentStyle,
    same.indentWidth, same.wrapperName, same.canonical]

/--
Whether two ways to build a pipeline both fail, or give pipelines that leave the
same file, with its lines, their categories and its report, and end alike, on
every content.
-/
def SameEffect : Except UnknownRule Pipeline → Except UnknownRule Pipeline → Prop
  | .error _, .error _ =>
      True
  | .ok first, .ok second =>
      ∀ path content, first.run path content = second.run path content
  | _, _ =>
      False

theorem SameEffect.refl
    (built : Except UnknownRule Pipeline) :
    SameEffect built built := by
  cases built with
  | error unknown =>
      trivial
  | ok pipeline =>
      exact fun _ _ => rfl

/--
The packed settings cover all that changes what a pipeline does: configurations
with the same bytes both build none or build pipelines that do the same.  They
cover no more than that: the order of the disabled rules and the settings of
other sections do not show in the bytes.
-/
theorem fingerprint_covers_output
    (first second : Config)
    (firstWord : IsWord first.indentWidth)
    (secondWord : IsWord second.indentWidth) :
    (first.fingerprintBytes = second.fingerprintBytes →
      SameEffect (ofConfig first) (ofConfig second)) ∧
    (SameCovered first second → first.fingerprintBytes = second.fingerprintBytes) := by
  refine ⟨fun same => ?_, fun covered => covered.fingerprintBytes_eq⟩
  by_cases firstKnown : first.OnlyKnownRules
  · have covered := SameCovered.of_fingerprintBytes_eq firstWord secondWord firstKnown same
    rw [ofConfig_eq_of_sameCovered covered firstKnown]
    exact .refl _
  by_cases secondKnown : second.OnlyKnownRules
  · have covered := SameCovered.of_fingerprintBytes_eq secondWord firstWord secondKnown same.symm
    rw [ofConfig_eq_of_sameCovered covered secondKnown]
    exact .refl _
  obtain ⟨firstUnknown, firstBuilt⟩ := exists_error_of_not_onlyKnownRules firstKnown
  obtain ⟨secondUnknown, secondBuilt⟩ := exists_error_of_not_onlyKnownRules secondKnown
  rw [firstBuilt, secondBuilt]
  trivial

/--
Two configurations that name the same rules in another order and look for other
files pack alike, so their pipelines do the same, here without the disabled rules.
-/
theorem reordered_rules_have_same_effect :
    let first : Config :=
      { disabledRules := ["tool_directive_rewrite", "suspension_rewrite"], jobs := 2 }
    let second : Config :=
      { disabledRules := ["suspension_rewrite", "tool_directive_rewrite"], includes := ["*.gd"] }
    IsWord first.indentWidth ∧ IsWord second.indentWidth ∧ SameCovered first second ∧
      first.fingerprintBytes = second.fingerprintBytes ∧
      SameEffect (ofConfig first) (ofConfig second) ∧
      (ofConfig first).isOk = true := by
  intro first second
  have firstWord : IsWord first.indentWidth := by
    unfold IsWord
    decide
  have secondWord : IsWord second.indentWidth := by
    unfold IsWord
    decide
  have covered : SameCovered first second :=
    ⟨List.Perm.swap _ _ _, rfl, rfl, rfl, rfl⟩
  obtain ⟨coversOutput, coversNoMore⟩ :=
    fingerprint_covers_output first second firstWord secondWord
  have same := coversNoMore covered
  exact ⟨firstWord, secondWord, covered, same, coversOutput same, by decide⟩

end Pipeline

end ScriptUplift
