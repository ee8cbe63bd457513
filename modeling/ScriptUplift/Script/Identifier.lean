import ScriptUplift.Script.Scan

namespace ScriptUplift

/-!
# Identifiers outside string literals

`maskStrings` blots out the string literals of a piece of code, character by
character, so that identifiers, brackets and commas can be looked for in the
result at the positions they have in the code.
-/

/-- A character that may start an identifier; everything beyond ASCII counts. -/
def isIdentifierStart (character : Char) : Bool :=
  character == '_' || isLetterChar character || 0x80 ≤ character.toNat

/-- A character that may continue an identifier. -/
def isIdentifierChar (character : Char) : Bool :=
  isIdentifierStart character || isDigitChar character

/-- Whether a text is a single identifier. -/
def isIdentifier : Text → Bool
  | [] =>
      false
  | first :: rest =>
      isIdentifierStart first && rest.all isIdentifierChar

/--
Replace every character of a string literal, delimiters included, by a
quotation mark.  The argument tells the mark of the literal that is open; a
backslash inside a literal protects the next character.
-/
def maskStringsFrom : Option Char → Text → Text
  | _, [] =>
      []
  | none, character :: rest =>
      if isQuoteMark character then
        '"' :: maskStringsFrom (some character) rest
      else
        character :: maskStringsFrom none rest
  | some mark, character :: rest =>
      if character = '\\' then
        match rest with
        | _ :: tail =>
            '"' :: '"' :: maskStringsFrom (some mark) tail
        | [] =>
            ['"']
      else
        '"' :: maskStringsFrom (if character = mark then none else some mark) rest

/-- Replace every character of the string literals of a piece of code by a quotation mark. -/
def maskStrings
    (code : Text) :
    Text :=
  maskStringsFrom none code

/-- A word of code and the index of its first character. -/
structure Token where
  text : Text
  start : Nat
  deriving Repr, DecidableEq

namespace Token

/-- The index just after a token. -/
def stop
    (token : Token) :
    Nat :=
  token.start + token.text.length

end Token

/-- The maximal runs of identifier characters, the first character having the given index. -/
def wordRuns : Nat → Text → List Token
  | _, [] =>
      []
  | position, character :: rest =>
      let later := wordRuns (position + 1) rest
      if isIdentifierChar character then
        match later with
        | next :: others =>
            if next.start = position + 1 then
              ⟨character :: next.text, position⟩ :: others
            else
              ⟨[character], position⟩ :: later
        | [] =>
            [⟨[character], position⟩]
      else
        later

/-- The identifiers of a piece of code that are not inside strings; number literals are none. -/
def identifiers
    (code : Text) :
    List Token :=
  (wordRuns 0 (maskStrings code)).filter fun token =>
    !(token.text.head?.any isDigitChar)

/-- The identifier characters a text begins with, after its indentation, and what follows them. -/
def firstWord
    (text : Text) :
    Text × Text :=
  (text.dropIndentation.takeWhile isIdentifierChar,
   text.dropIndentation.dropWhile isIdentifierChar)

/-- Masking keeps every position. -/
@[simp] theorem length_maskStringsFrom
    (quote : Option Char)
    (code : Text) :
    (maskStringsFrom quote code).length = code.length := by
  fun_induction maskStringsFrom quote code <;> simp_all

end ScriptUplift
