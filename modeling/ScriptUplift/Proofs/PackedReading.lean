import ScriptUplift.Digest.Packed
import ScriptUplift.Proofs.BigEndian
import ScriptUplift.Proofs.TextBytes

namespace ScriptUplift

/-!
# Reading packed values

Every packed value opens with a head, whose first byte tells how long the head
is.  A number is nothing but its head, so it can be read back.  The head of a
text tells its length only up to what four bytes hold; such a text still has a
definite end where a byte follows that no character begins with.
-/

namespace Packed

/-- The bytes of a head, as its first byte tells them. -/
def headSize
    (first : UInt8) :
    Nat :=
  if first = 0xcc ∨ first = 0xd0 ∨ first = 0xd9 then 2
  else if first = 0xcd ∨ first = 0xd1 ∨ first = 0xda ∨ first = 0xdc then 3
  else if first = 0xce ∨ first = 0xd2 ∨ first = 0xdb ∨ first = 0xdd then 5
  else if first = 0xcf ∨ first = 0xd3 then 9
  else 1

/-- Bytes that are one head. -/
def IsHead
    (bytes : List UInt8) :
    Prop :=
  ∃ first others, bytes = first :: others ∧ others.length + 1 = headSize first

/-- Two heads that begin the same bytes are the same. -/
theorem IsHead.append_inj
    {first second afterFirst afterSecond : List UInt8}
    (firstHead : IsHead first)
    (secondHead : IsHead second)
    (same : first ++ afterFirst = second ++ afterSecond) :
    first = second ∧ afterFirst = afterSecond := by
  obtain ⟨top, others, rfl, size⟩ := firstHead
  obtain ⟨otherTop, otherOthers, rfl, otherSize⟩ := secondHead
  rw [List.cons_append, List.cons_append, List.cons.injEq] at same
  obtain ⟨rfl, same⟩ := same
  obtain ⟨rfl, after⟩ := List.append_inj same (by omega)
  exact ⟨rfl, after⟩

/-- The head of a text of a number of bytes. -/
def textHead
    (size : Nat) :
    List UInt8 :=
  if size < 32 then [UInt8.ofNat (0xa0 + size)]
  else if size < 0x100 then 0xd9 :: Sha256.bigEndian 1 size
  else if size < 0x10000 then 0xda :: Sha256.bigEndian 2 size
  else 0xdb :: Sha256.bigEndian 4 size

/-- The head of a list of a number of texts. -/
def listHead
    (size : Nat) :
    List UInt8 :=
  if size < 16 then [UInt8.ofNat (0x90 + size)]
  else if size < 0x10000 then 0xdc :: Sha256.bigEndian 2 size
  else 0xdd :: Sha256.bigEndian 4 size

theorem text_eq
    (value : String) :
    text value = textHead (Text.utf8 value.toList).length ++ Text.utf8 value.toList :=
  rfl

theorem list_eq
    (items : List String) :
    list items = listHead items.length ++ items.flatMap text :=
  rfl

/-- Whether a byte opens a text. -/
def OpensText
    (byte : UInt8) :
    Prop :=
  (0xa0 ≤ byte ∧ byte ≤ 0xbf) ∨ (0xd9 ≤ byte ∧ byte ≤ 0xdb)

instance
    (byte : UInt8) :
    Decidable (OpensText byte) :=
  inferInstanceAs (Decidable (_ ∨ _))

/-- What a first byte tells about the text after it. -/
theorem exists_textHead
    (size : Nat) :
    ∃ first others,
      textHead size = first :: others ∧
        others.length + 1 = headSize first ∧
        OpensText first ∧
        (first.IsUTF8FirstByte → 32 ≤ size) ∧
        (2 ≤ others.length → 0x100 ≤ size) := by
  unfold textHead
  split
  · rename_i short
    refine ⟨UInt8.ofNat (0xa0 + size), [], rfl, ?_, ?_, ?_, by simp⟩
    · have each : ∀ size < 32, headSize (UInt8.ofNat (0xa0 + size)) = 1 := by
        decide
      exact (each size short).symm
    · have each : ∀ size < 32, OpensText (UInt8.ofNat (0xa0 + size)) := by
        decide
      exact each size short
    · have each : ∀ size < 32, ¬(UInt8.ofNat (0xa0 + size)).IsUTF8FirstByte := by
        decide
      exact fun isFirst => absurd isFirst (each size short)
  have long : 32 ≤ size := by
    omega
  split
  · exact ⟨0xd9, _, rfl, by simp [headSize], by decide, fun _ => long, by simp⟩
  split
  · exact ⟨0xda, _, rfl, by simp [headSize], by decide, fun _ => long, fun _ => by omega⟩
  · exact ⟨0xdb, _, rfl, by simp [headSize], by decide, fun _ => long, fun _ => by omega⟩

theorem isHead_textHead
    (size : Nat) :
    IsHead (textHead size) := by
  obtain ⟨first, others, spelled, width, _⟩ := exists_textHead size
  exact ⟨first, others, spelled, width⟩

theorem length_textHead_le
    (size : Nat) :
    (textHead size).length ≤ 5 := by
  unfold textHead
  split
  · simp
  split
  · simp
  split <;> simp

theorem isHead_listHead
    (size : Nat) :
    IsHead (listHead size) := by
  unfold listHead
  split
  · rename_i short
    have each : ∀ size < 16, headSize (UInt8.ofNat (0x90 + size)) = 1 := by
      decide
    exact ⟨_, [], rfl, (each size short).symm⟩
  split
  · exact ⟨0xdc, _, rfl, by simp [headSize]⟩
  · exact ⟨0xdd, _, rfl, by simp [headSize]⟩

/-- A list does not begin like the value of an absent one. -/
theorem list_append_ne_nothing
    (items : List String)
    (after afterNothing : List UInt8) :
    value (.list items) ++ after ≠ value .nothing ++ afterNothing := by
  have nothing : value .nothing = [0xc0] := rfl
  have listed : value (.list items) = listHead items.length ++ items.flatMap text :=
    list_eq items
  rw [nothing, listed, List.append_assoc, listHead]
  split
  · rename_i short
    have each : ∀ size < 16, UInt8.ofNat (0x90 + size) ≠ 0xc0 := by
      decide
    exact fun same => each items.length short (List.cons.inj same).1
  split <;> simp

/-- A number of at most 64 bits, with its sign. -/
def IsWord
    (value : Int) :
    Prop :=
  -2 ^ 63 ≤ value ∧ value < 2 ^ 63

/-- The number that a head alone stands for. -/
def headNumber : List UInt8 → Int
  | [] =>
      0
  | first :: others =>
      let size : Nat := others.foldl (fun value byte => value * 256 + byte.toNat) 0
      if first < 0x80 then first.toNat
      else if 0xe0 ≤ first then first.toNat - 256
      else if first < 0xd0 then size
      else size - 256 ^ others.length

/-- A number that is not negative is one head that stands for it. -/
theorem integer_of_nonnegative
    {value : Int}
    (nonnegative : 0 ≤ value) :
    ∃ first others,
      integer value = first :: others ∧
        others.length + 1 = headSize first ∧
        ¬OpensText first ∧
        (IsWord value → headNumber (first :: others) = value) := by
  obtain ⟨size, rfl⟩ := Int.eq_ofNat_of_zero_le nonnegative
  simp only [integer, if_pos nonnegative, Int.toNat_natCast]
  split
  · rename_i small
    have each : ∀ size < 0x80,
        headSize (UInt8.ofNat size) = 1 ∧ ¬OpensText (UInt8.ofNat size) ∧
          headNumber [UInt8.ofNat size] = size := by
      decide +kernel
    obtain ⟨width, noText, number⟩ := each size small
    exact ⟨_, [], rfl, width.symm, noText, fun _ => number⟩
  split
  · rename_i room
    exact ⟨0xcc, _, rfl, by simp [headSize], by decide, fun _ => by
      simp [headNumber, Sha256.foldl_bigEndian_of_lt 1 room]⟩
  split
  · rename_i room
    exact ⟨0xcd, _, rfl, by simp [headSize], by decide, fun _ => by
      simp [headNumber, Sha256.foldl_bigEndian_of_lt 2 room]⟩
  split
  · rename_i room
    exact ⟨0xce, _, rfl, by simp [headSize], by decide, fun _ => by
      simp [headNumber, Sha256.foldl_bigEndian_of_lt 4 room]⟩
  · refine ⟨0xcf, _, rfl, by simp [headSize], by decide, fun word => ?_⟩
    have room : size < 256 ^ 8 := by
      unfold IsWord at word
      omega
    simp [headNumber, Sha256.foldl_bigEndian_of_lt 8 room]

/-- The complement of a number that has room in it stands for it. -/
theorem foldl_complement
    (count : Nat)
    {value : Int}
    (negative : value < 0)
    (room : -256 ^ count ≤ value) :
    (((complement count value).foldl (fun value byte => value * 256 + byte.toNat) 0 : Nat) : Int) =
      value + 256 ^ count := by
  unfold complement
  have whole : (Int.ofNat (Nat.pow 256 count) : Int) = 256 ^ count := by
    simp
  rw [whole, Sha256.foldl_bigEndian_of_lt]
  · omega
  · have asInt : (((256 ^ count : Nat)) : Int) = 256 ^ count := by
      simp
    omega

@[simp] theorem length_complement
    (count : Nat)
    (value : Int) :
    (complement count value).length = count := by
  simp [complement]

/-- A negative number is one head that stands for it. -/
theorem integer_of_negative
    {value : Int}
    (negative : value < 0) :
    ∃ first others,
      integer value = first :: others ∧
        others.length + 1 = headSize first ∧
        ¬OpensText first ∧
        (IsWord value → headNumber (first :: others) = value) := by
  simp only [integer, if_neg (Int.not_le.mpr negative)]
  split
  · rename_i room
    have each : ∀ size < 32,
        headSize (UInt8.ofNat (224 + size)) = 1 ∧ ¬OpensText (UInt8.ofNat (224 + size)) ∧
          headNumber [UInt8.ofNat (224 + size)] = size - 32 := by
      decide +kernel
    obtain ⟨width, noText, number⟩ := each (value + 32).toNat (by omega)
    have spelled : complement 1 value = [UInt8.ofNat (224 + (value + 32).toNat)] := by
      have size : (value + Int.ofNat (Nat.pow 256 1)).toNat = 224 + (value + 32).toNat := by
        simp
        omega
      rw [complement, size, Sha256.bigEndian_succ, Nat.pow_zero, Nat.div_one,
        Nat.mod_eq_of_lt (by omega)]
      rfl
    refine ⟨_, [], spelled, width.symm, noText, fun _ => ?_⟩
    rw [number]
    omega
  split
  · rename_i room
    refine ⟨0xd0, _, rfl, by simp [headSize], by decide, fun _ => ?_⟩
    simp [headNumber, foldl_complement 1 negative (by omega)]
  split
  · rename_i room
    refine ⟨0xd1, _, rfl, by simp [headSize], by decide, fun _ => ?_⟩
    simp [headNumber, foldl_complement 2 negative (by omega)]
  split
  · rename_i room
    refine ⟨0xd2, _, rfl, by simp [headSize], by decide, fun _ => ?_⟩
    simp [headNumber, foldl_complement 4 negative (by omega)]
  · refine ⟨0xd3, _, rfl, by simp [headSize], by decide, fun word => ?_⟩
    unfold IsWord at word
    simp [headNumber, foldl_complement 8 negative (by omega)]

/-- A number is one head that stands for it. -/
theorem exists_integerHead
    (value : Int) :
    ∃ first others,
      integer value = first :: others ∧
        others.length + 1 = headSize first ∧
        ¬OpensText first ∧
        (IsWord value → headNumber (first :: others) = value) := by
  rcases lt_or_ge value 0 with negative | nonnegative
  · exact integer_of_negative negative
  · exact integer_of_nonnegative nonnegative

theorem isHead_integer
    (value : Int) :
    IsHead (integer value) := by
  obtain ⟨first, others, spelled, width, _⟩ := exists_integerHead value
  exact ⟨first, others, spelled, width⟩

theorem length_integer_le
    (value : Int) :
    (integer value).length ≤ 9 := by
  obtain ⟨first, others, spelled, width, _⟩ := exists_integerHead value
  rw [spelled, List.length_cons, width]
  unfold headSize
  split
  · simp
  split
  · simp
  split
  · simp
  split <;> simp

/-- The bytes of a number end where they end and stand for one number. -/
theorem integer_append_inj
    {first second : Int}
    {afterFirst afterSecond : List UInt8}
    (firstWord : IsWord first)
    (secondWord : IsWord second)
    (same : integer first ++ afterFirst = integer second ++ afterSecond) :
    first = second ∧ afterFirst = afterSecond := by
  obtain ⟨sameHead, sameAfter⟩ := (isHead_integer first).append_inj (isHead_integer second) same
  obtain ⟨top, others, spelled, _, _, firstRead⟩ := exists_integerHead first
  obtain ⟨otherTop, otherOthers, otherSpelled, _, _, secondRead⟩ := exists_integerHead second
  rw [spelled, otherSpelled] at sameHead
  refine ⟨?_, sameAfter⟩
  rw [← firstRead firstWord, ← secondRead secondWord, sameHead]

/-- A number does not begin like a text. -/
theorem integer_append_ne_text
    (value : Int)
    (string : String)
    (after afterText : List UInt8) :
    integer value ++ after ≠ text string ++ afterText := by
  intro same
  obtain ⟨top, others, spelled, _, noText, _⟩ := exists_integerHead value
  obtain ⟨first, rest, headSpelled, _, opens, _⟩ :=
    exists_textHead (Text.utf8 string.toList).length
  rw [spelled, text_eq, headSpelled, List.cons_append, List.cons_append, List.cons_append,
    List.cons.injEq] at same
  exact noText (same.1 ▸ opens)

/-- Texts at the front of the same bytes have the same heads. -/
theorem text_append_heads
    {first second : String}
    {afterFirst afterSecond : List UInt8}
    (same : text first ++ afterFirst = text second ++ afterSecond) :
    textHead (Text.utf8 first.toList).length = textHead (Text.utf8 second.toList).length ∧
      Text.utf8 first.toList ++ afterFirst = Text.utf8 second.toList ++ afterSecond := by
  rw [text_eq, text_eq, List.append_assoc, List.append_assoc] at same
  exact (isHead_textHead _).append_inj (isHead_textHead _) same

/-- The head of a short text is the head of no other length. -/
theorem eq_of_textHead_eq
    {first second : Nat}
    (short : first < 32)
    (same : textHead first = textHead second) :
    first = second := by
  have firstHead : textHead first = [UInt8.ofNat (0xa0 + first)] :=
    if_pos short
  have alone : (textHead second).length = 1 := by
    rw [← same, firstHead]
    rfl
  have secondShort : second < 32 := by
    by_contra long
    unfold textHead at alone
    rw [if_neg long] at alone
    split at alone
    · simp at alone
    split at alone <;> simp at alone
  have secondHead : textHead second = [UInt8.ofNat (0xa0 + second)] :=
    if_pos secondShort
  rw [firstHead, secondHead, List.cons.injEq, ← UInt8.toNat_inj, UInt8.toNat_ofNat',
    UInt8.toNat_ofNat'] at same
  omega

/-- A short text at the front of some bytes is the only one there. -/
theorem short_text_append_inj
    {first second : String}
    {afterFirst afterSecond : List UInt8}
    (short : (Text.utf8 first.toList).length < 32)
    (same : text first ++ afterFirst = text second ++ afterSecond) :
    first = second ∧ afterFirst = afterSecond := by
  obtain ⟨sameHead, sameBytes⟩ := text_append_heads same
  obtain ⟨bytes, after⟩ := List.append_inj sameBytes (eq_of_textHead_eq short sameHead)
  exact ⟨String.toList_injective (Text.utf8_injective bytes), after⟩

/-- Texts of any length that are followed by no first byte end where their bytes end. -/
theorem text_append_inj
    {first second : String}
    {firstByte secondByte : UInt8}
    {afterFirst afterSecond : List UInt8}
    (same : text first ++ firstByte :: afterFirst = text second ++ secondByte :: afterSecond)
    (firstContinues : ¬firstByte.IsUTF8FirstByte)
    (secondContinues : ¬secondByte.IsUTF8FirstByte) :
    first = second ∧ firstByte :: afterFirst = secondByte :: afterSecond := by
  obtain ⟨characters, after⟩ :=
    Text.utf8_append_inj (text_append_heads same).2 firstContinues secondContinues
  exact ⟨String.toList_injective characters, after⟩

end Packed

end ScriptUplift
