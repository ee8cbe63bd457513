import Mathlib.Tactic.Common
import ScriptUplift.Text.Basic

namespace ScriptUplift

/-!
# Texts as bytes

The first byte of a character can be told from the bytes that continue one.  So
the bytes of a text can only be cut between two characters where a first byte
follows, and a text that is followed by a byte no character begins with has a
definite end.
-/

namespace Text

@[simp] theorem utf8_nil :
    utf8 [] = [] :=
  rfl

@[simp] theorem utf8_cons
    (character : Char)
    (rest : Text) :
    utf8 (character :: rest) = String.utf8EncodeChar character ++ utf8 rest :=
  rfl

@[simp] theorem utf8_append
    (first second : Text) :
    utf8 (first ++ second) = utf8 first ++ utf8 second := by
  simp [utf8]

/-- A character is a first byte and bytes that are none. -/
theorem exists_first_of_utf8EncodeChar
    (character : Char) :
    ∃ (first : UInt8) (others : List UInt8),
      String.utf8EncodeChar character = first :: others ∧
        first.IsUTF8FirstByte ∧
        ∀ byte ∈ others, ¬byte.IsUTF8FirstByte := by
  cases encoded : String.utf8EncodeChar character with
  | nil =>
      exact absurd encoded String.utf8EncodeChar_ne_nil
  | cons first others =>
      refine ⟨first, others, rfl, ?_, ?_⟩
      · have nonempty : 0 < (String.utf8EncodeChar character).length := by
          simp [encoded]
        have atFront : (String.utf8EncodeChar character)[0].IsUTF8FirstByte ↔ 0 = 0 :=
          UInt8.isUTF8FirstByte_getElem_utf8EncodeChar
        simpa [encoded] using atFront
      · intro byte member isFirst
        obtain ⟨place, inside, rfl⟩ := List.getElem_of_mem member
        have insideAll : place + 1 < (String.utf8EncodeChar character).length := by
          simpa [encoded] using inside
        have later :
            (String.utf8EncodeChar character)[place + 1].IsUTF8FirstByte ↔ place + 1 = 0 :=
          UInt8.isUTF8FirstByte_getElem_utf8EncodeChar
        simp only [encoded, List.getElem_cons_succ] at later
        exact absurd (later.mp isFirst) (Nat.succ_ne_zero place)

/-- The bytes of a text begin with a first byte. -/
theorem isFirst_of_utf8_eq_cons
    {text : Text}
    {byte : UInt8}
    {bytes : List UInt8}
    (encoded : utf8 text = byte :: bytes) :
    byte.IsUTF8FirstByte := by
  cases text with
  | nil =>
      simp at encoded
  | cons character rest =>
      obtain ⟨first, others, spelled, isFirst, _⟩ := exists_first_of_utf8EncodeChar character
      rw [utf8_cons, spelled, List.cons_append, List.cons.injEq] at encoded
      exact encoded.1 ▸ isFirst

/-- No character begins with another one. -/
theorem utf8EncodeChar_append_inj
    {first second : Char}
    {afterFirst afterSecond : List UInt8}
    (same : String.utf8EncodeChar first ++ afterFirst =
      String.utf8EncodeChar second ++ afterSecond) :
    first = second ∧ afterFirst = afterSecond := by
  have asArrays :
      (String.utf8EncodeChar first).toByteArray ++ afterFirst.toByteArray =
        (String.utf8EncodeChar second).toByteArray ++ afterSecond.toByteArray := by
    rw [← List.toByteArray_append, ← List.toByteArray_append, same]
  have firstRead :=
    ByteArray.utf8DecodeChar?_utf8EncodeChar_append (b := afterFirst.toByteArray) (c := first)
  rw [asArrays, ByteArray.utf8DecodeChar?_utf8EncodeChar_append] at firstRead
  obtain rfl : second = first := Option.some.inj firstRead
  exact ⟨rfl, List.append_cancel_left same⟩

/-- A cut before a first byte is a cut between two characters. -/
theorem exists_split_of_utf8_eq_append
    {text : Text}
    {front back : List UInt8}
    {byte : UInt8}
    (cut : utf8 text = front ++ byte :: back)
    (isFirst : byte.IsUTF8FirstByte) :
    ∃ before after, text = before ++ after ∧ utf8 before = front ∧ utf8 after = byte :: back := by
  induction text generalizing front with
  | nil =>
      simp at cut
  | cons character rest inductionHypothesis =>
      rw [utf8_cons] at cut
      rcases List.append_eq_append_iff.mp cut with
        ⟨between, rfl, restCut⟩ | ⟨between, spelled, backCut⟩
      · obtain ⟨before, after, rfl, beforeBytes, afterBytes⟩ := inductionHypothesis restCut
        exact ⟨character :: before, after, rfl, by simp [beforeBytes], afterBytes⟩
      · obtain ⟨first, others, firstSpelled, _, othersContinue⟩ :=
          exists_first_of_utf8EncodeChar character
        cases between with
        | nil =>
            refine ⟨[character], rest, rfl, ?_, backCut.symm⟩
            simpa using spelled
        | cons head between =>
            -- The first byte of the back stands inside of the character, unless it is its own.
            obtain rfl : byte = head := (List.cons.inj backCut).1
            cases front with
            | nil =>
                exact ⟨[], character :: rest, rfl, rfl, cut⟩
            | cons top front =>
                rw [spelled, List.cons_append, List.cons.injEq] at firstSpelled
                exact absurd isFirst
                  (othersContinue byte (firstSpelled.2 ▸ by simp))

/-- A cut before a first byte is a cut between two characters of a text or a cut after it. -/
theorem exists_split_of_utf8_append_eq
    {text : Text}
    {after front back : List UInt8}
    {byte : UInt8}
    (cut : utf8 text ++ after = front ++ byte :: back)
    (isFirst : byte.IsUTF8FirstByte) :
    (∃ before rest, text = before ++ rest ∧ utf8 before = front ∧
        utf8 rest ++ after = byte :: back) ∨
      ∃ between, front = utf8 text ++ between ∧ after = between ++ byte :: back := by
  rcases List.append_eq_append_iff.mp cut with ⟨between, frontCut, afterCut⟩ |
    ⟨between, textCut, backCut⟩
  · exact .inr ⟨between, frontCut, afterCut⟩
  cases between with
  | nil =>
      exact .inr ⟨[], by simpa using textCut.symm, backCut.symm⟩
  | cons head between =>
      obtain rfl : byte = head := (List.cons.inj backCut).1
      obtain ⟨before, rest, rfl, beforeBytes, restBytes⟩ :=
        exists_split_of_utf8_eq_append textCut isFirst
      exact .inl ⟨before, rest, rfl, beforeBytes, by rw [restBytes, backCut]⟩

/-- A byte that is a character of its own is an ASCII byte. -/
theorem lt_of_utf8EncodeChar_eq_singleton
    {character : Char}
    {byte : UInt8}
    (alone : String.utf8EncodeChar character = [byte]) :
    byte < 0x80 := by
  have size : character.utf8Size = 1 := by
    rw [← String.length_utf8EncodeChar, alone]
    rfl
  have small := Char.utf8Size_eq_one_iff.mp size
  rw [String.utf8EncodeChar_eq_singleton size, List.cons.injEq] at alone
  have low : character.val.toNat < 0x80 := Nat.lt_succ_of_le (UInt32.le_iff_toNat_le.mp small)
  rw [← alone.1, UInt8.lt_iff_toNat_lt, UInt32.toNat_toUInt8]
  exact Nat.lt_of_le_of_lt (Nat.mod_le _ _) low

/-- Of two texts one goes on with the other, when the first is followed by no first byte. -/
theorem exists_suffix_of_utf8_append_eq
    {first second : Text}
    {byte : UInt8}
    {afterFirst afterSecond : List UInt8}
    (same : utf8 first ++ byte :: afterFirst = utf8 second ++ afterSecond)
    (continues : ¬byte.IsUTF8FirstByte) :
    ∃ rest, first = second ++ rest ∧ afterSecond = utf8 rest ++ byte :: afterFirst := by
  induction second generalizing first with
  | nil =>
      exact ⟨first, rfl, same.symm⟩
  | cons character second inductionHypothesis =>
      cases first with
      | nil =>
          obtain ⟨head, others, spelled, isFirst, _⟩ := exists_first_of_utf8EncodeChar character
          rw [utf8_nil, List.nil_append, utf8_cons, spelled, List.cons_append, List.cons_append,
            List.cons.injEq] at same
          exact absurd (same.1 ▸ isFirst) continues
      | cons other first =>
          rw [utf8_cons, utf8_cons, List.append_assoc, List.append_assoc] at same
          obtain ⟨rfl, sameRest⟩ := utf8EncodeChar_append_inj same
          obtain ⟨rest, rfl, afterCut⟩ := inductionHypothesis sameRest
          exact ⟨rest, rfl, afterCut⟩

/-- Texts that are followed by no first byte end where their bytes end. -/
theorem utf8_append_inj
    {first second : Text}
    {firstByte secondByte : UInt8}
    {afterFirst afterSecond : List UInt8}
    (same : utf8 first ++ firstByte :: afterFirst = utf8 second ++ secondByte :: afterSecond)
    (firstContinues : ¬firstByte.IsUTF8FirstByte)
    (secondContinues : ¬secondByte.IsUTF8FirstByte) :
    first = second ∧ firstByte :: afterFirst = secondByte :: afterSecond := by
  obtain ⟨rest, rfl, cut⟩ := exists_suffix_of_utf8_append_eq same firstContinues
  cases bytes : utf8 rest with
  | nil =>
      rw [utf8_append, bytes, List.append_nil] at same
      have noRest : rest = [] := by
        cases rest with
        | nil =>
            rfl
        | cons character rest =>
            simp at bytes
      exact ⟨by rw [noRest, List.append_nil], List.append_cancel_left same⟩
  | cons byte bytesRest =>
      rw [bytes, List.cons_append, List.cons.injEq] at cut
      exact absurd (cut.1 ▸ isFirst_of_utf8_eq_cons bytes) secondContinues

/-- Texts with the same bytes are the same. -/
theorem utf8_injective
    {first second : Text}
    (same : utf8 first = utf8 second) :
    first = second := by
  have followed : utf8 first ++ [0x80] = utf8 second ++ [0x80] := by
    rw [same]
  exact (utf8_append_inj followed (by decide) (by decide)).1

end Text

end ScriptUplift
