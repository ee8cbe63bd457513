import ScriptUplift.Text.Blank

namespace ScriptUplift

/-!
# Texts

A text is a list of characters, so that everything the line-level modules do
is recursion on a list.  Positions are character indexes; `Text.byteSize`
measures a text in UTF-8 bytes for the places that speak of bytes.
-/

/-- A piece of script: the characters of a line or of a part of it. -/
abbrev Text := List Char

namespace Text

/-- Whether a text begins with another one. -/
def startsWith
    (text head : Text) :
    Bool :=
  head.isPrefixOf text

/-- Whether a text ends with another one. -/
def endsWith
    (text tail : Text) :
    Bool :=
  tail.isSuffixOf text

/-- The text after a given head, when it begins with that head. -/
def afterHead?
    (text head : Text) :
    Option Text :=
  if text.startsWith head then some (text.drop head.length) else none

/-- What follows a head stands behind it. -/
theorem afterHead?_eq_some_iff
    {text head rest : Text} :
    text.afterHead? head = some rest ↔ text = head ++ rest := by
  unfold afterHead? startsWith
  constructor
  · intro after
    split at after
    · rename_i starts
      obtain ⟨tail, rfl⟩ := List.isPrefixOf_iff_prefix.mp starts
      rw [List.drop_left] at after
      rw [Option.some.inj after]
    · cases after
  · rintro rfl
    rw [if_pos (List.isPrefixOf_iff_prefix.mpr (List.prefix_append head rest)), List.drop_left]

/-- Remove the characters of a class from the end of a text. -/
def dropEndWhile
    (class? : Char → Bool)
    (text : Text) :
    Text :=
  (text.reverse.dropWhile class?).reverse

/-- Remove blank characters from both ends. -/
def trim
    (text : Text) :
    Text :=
  dropEndWhile isBlankChar (text.dropWhile isBlankChar)

/-- Blanks in front of a text are trimmed away. -/
theorem trim_blank_append
    {front : Text}
    (blank : front.all isBlankChar = true)
    (text : Text) :
    trim (front ++ text) = trim text := by
  rw [trim, List.dropWhile_append_of_pos (List.all_eq_true.mp blank), trim]

/-- Whether a text holds blank characters only. -/
def isBlank
    (text : Text) :
    Bool :=
  text.all isBlankChar

/-- The spaces and tabs a text begins with. -/
def indentation
    (text : Text) :
    Text :=
  text.takeWhile isIndentChar

/-- A text without the spaces and tabs it begins with. -/
def dropIndentation
    (text : Text) :
    Text :=
  text.dropWhile isIndentChar

/-- A text without the spaces and tabs it ends with. -/
def dropEndIndentation
    (text : Text) :
    Text :=
  text.dropEndWhile isIndentChar

/-- The number of bytes of a text in UTF-8. -/
def byteSize
    (text : Text) :
    Nat :=
  (text.map Char.utf8Size).foldr (· + ·) 0

/-- The bytes of a text in UTF-8. -/
def utf8
    (text : Text) :
    List UInt8 :=
  text.flatMap String.utf8EncodeChar

/-- The byte offset of the character at an index. -/
def byteOffset
    (text : Text)
    (index : Nat) :
    Nat :=
  byteSize (text.take index)

/-- The index of the first character that starts at or after a byte offset. -/
def indexOfByte
    (text : Text)
    (offset : Nat) :
    Nat :=
  match text with
  | [] =>
      0
  | character :: rest =>
      if offset = 0 then 0
      else indexOfByte rest (offset - character.utf8Size) + 1

/-- Cut a text at every occurrence of a character; there is always one piece. -/
def splitAt
    (mark : Char) :
    Text → List Text
  | [] =>
      [[]]
  | character :: rest =>
      if character = mark then
        [] :: splitAt mark rest
      else
        match splitAt mark rest with
        | piece :: pieces =>
            (character :: piece) :: pieces
        | [] =>
            [[character]]

/-- Put a separator between the pieces and join them. -/
def joinWith
    (separator : Text)
    (pieces : List Text) :
    Text :=
  separator.intercalate pieces

theorem joinWith_singleton
    (separator piece : Text) :
    joinWith separator [piece] = piece := by
  simp [joinWith]

theorem joinWith_cons_cons
    (separator first second : Text)
    (rest : List Text) :
    joinWith separator (first :: second :: rest) =
      first ++ (separator ++ joinWith separator (second :: rest)) := by
  simp [joinWith, List.intercalate]

/-- The index of the first occurrence of one text in another. -/
def indexOf?
    (needle : Text) :
    Text → Option Nat
  | [] =>
      if needle = [] then some 0 else none
  | character :: rest =>
      if startsWith (character :: rest) needle then
        some 0
      else
        (indexOf? needle rest).map (· + 1)

/-- A joined text is blank when both parts are. -/
@[simp] theorem isBlank_append
    (first second : Text) :
    isBlank (first ++ second) = (isBlank first && isBlank second) :=
  List.all_append

/-- Trimming a text of indentation splits it into the part removed and the rest. -/
theorem indentation_append_dropIndentation
    (text : Text) :
    text.indentation ++ text.dropIndentation = text :=
  List.takeWhile_append_dropWhile

/-- A cut always leaves at least one piece. -/
theorem splitAt_ne_nil
    (mark : Char)
    (text : Text) :
    splitAt mark text ≠ [] := by
  induction text with
  | nil =>
      simp [splitAt]
  | cons character rest inductionHypothesis =>
      unfold splitAt
      split
      · simp
      · split <;> simp

/-- Joining the pieces of a cut with its mark gives the text back. -/
theorem joinWith_splitAt
    (mark : Char)
    (text : Text) :
    joinWith [mark] (splitAt mark text) = text := by
  induction text with
  | nil =>
      rfl
  | cons character rest inductionHypothesis =>
      unfold splitAt
      split
      · rename_i same
        cases pieces : splitAt mark rest with
        | nil =>
            exact absurd pieces (splitAt_ne_nil mark rest)
        | cons piece others =>
            rw [pieces] at inductionHypothesis
            simp_all [joinWith, List.intercalate]
      · split
        · rename_i piece others pieces
          rw [pieces] at inductionHypothesis
          cases others <;>
            simp_all [joinWith, List.intercalate]
        · rename_i pieces
          exact absurd pieces (splitAt_ne_nil mark rest)

end Text

end ScriptUplift
