namespace ScriptUplift

/-!
# Character classes

The Unicode property `White_Space`, the two indentation characters, and the
ASCII classes that the script language and its patterns are written in.
-/

/-- The inclusive code point ranges of the Unicode property `White_Space`. -/
def blankRanges : List (Nat × Nat) :=
  [(0x0009, 0x000D), (0x0020, 0x0020), (0x0085, 0x0085), (0x00A0, 0x00A0),
   (0x1680, 0x1680), (0x2000, 0x200A), (0x2028, 0x2029), (0x202F, 0x202F),
   (0x205F, 0x205F), (0x3000, 0x3000)]

/-- A character is blank when it has the Unicode property `White_Space`. -/
def isBlankChar (character : Char) : Bool :=
  blankRanges.any fun range =>
    range.1 ≤ character.toNat && character.toNat ≤ range.2

/-- Indentation is made of spaces and tabs only. -/
def isIndentChar (character : Char) : Bool :=
  character == ' ' || character == '\t'

/-- The blank characters a pattern's `\s` stands for: vertical tab is not one. -/
def isPatternSpace (character : Char) : Bool :=
  character == ' ' || character == '\t' || character == '\n' ||
    character == '\r' || character == '\x0c'

/-- Whether a character is an ASCII digit. -/
def isDigitChar (character : Char) : Bool :=
  '0' ≤ character && character ≤ '9'

/-- Whether a character is an ASCII letter. -/
def isLetterChar (character : Char) : Bool :=
  ('a' ≤ character && character ≤ 'z') || ('A' ≤ character && character ≤ 'Z')

/-- The characters a pattern's `\w` stands for: ASCII letters, digits and the underscore. -/
def isPatternWord (character : Char) : Bool :=
  isLetterChar character || isDigitChar character || character == '_'

/-- Every indentation character is blank. -/
theorem isBlankChar_of_isIndentChar
    {character : Char}
    (indents : isIndentChar character = true) :
    isBlankChar character = true := by
  simp only [isIndentChar, Bool.or_eq_true, beq_iff_eq] at indents
  rcases indents with rfl | rfl <;> decide

end ScriptUplift
