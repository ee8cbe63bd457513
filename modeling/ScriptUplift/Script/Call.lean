import ScriptUplift.Script.Identifier

namespace ScriptUplift

/-!
# Brackets, argument lists and calls

Brackets of all kinds share one depth counter.  Everything here ignores what
stands inside string literals.
-/

/--
The index at which the bracket depth, counted from the given value, comes back
to zero by a closing bracket.
-/
def closingIndexFrom : Int → Text → Option Nat
  | _, [] =>
      none
  | depth, character :: rest =>
      if isOpeningBracket character then
        (closingIndexFrom (depth + 1) rest).map (· + 1)
      else if isClosingBracket character then
        if depth = 1 then
          some 0
        else
          (closingIndexFrom (depth - 1) rest).map (· + 1)
      else
        (closingIndexFrom depth rest).map (· + 1)

/-- The index of the bracket that closes the one at the given index, if the code closes it. -/
def closingIndex
    (code : Text)
    (openAt : Nat) :
    Option Nat :=
  (closingIndexFrom 0 (maskStrings (code.drop openAt))).map (· + openAt)

/--
Cut characters at the commas of bracket depth zero.  Each character comes with
its masked form, which decides about brackets and commas.
-/
def argumentPieces : Int → List (Char × Char) → List Text
  | _, [] =>
      [[]]
  | depth, (masked, character) :: rest =>
      if masked = ',' ∧ depth = 0 then
        [] :: argumentPieces depth rest
      else
        match argumentPieces (depth + bracketStep masked) rest with
        | piece :: pieces =>
            (character :: piece) :: pieces
        | [] =>
            [[character]]

/-- The arguments of a call, cut at top-level commas and trimmed; a blank list has none. -/
def splitArguments
    (text : Text) :
    List Text :=
  if text.isBlank then
    []
  else
    (argumentPieces 0 ((maskStrings text).zip text)).map Text.trim

/-- The content of a simple string literal, which may be marked as a name by an ampersand. -/
def stringLiteral?
    (text : Text) :
    Option Text :=
  let trimmed := text.trim
  let bare := ((trimmed.afterHead? ['&']).getD trimmed)
  match bare with
  | mark :: rest =>
      if isQuoteMark mark && rest.getLast? == some mark then
        let body := rest.dropLast
        if body.contains mark || body.contains '\\' then none else some body
      else
        none
  | [] =>
      none

/-- A complete call: all positions are indexes into the code it was found in. -/
structure Call where
  name : Text
  start : Nat
  openAt : Nat
  closeAt : Nat
  /-- The callee is a member of what stands before a dot. -/
  dotted : Bool
  deriving Repr, DecidableEq

namespace Call

/-- The call a token makes, when a bracket that is closed follows it after spaces. -/
def ofToken?
    (code : Text)
    (token : Token) :
    Option Call :=
  let after := code.drop token.stop
  let openAt := token.stop + (after.takeWhile (· == ' ')).length
  if (code.drop openAt).head? = some '(' then
    (closingIndex code openAt).map fun closeAt =>
      { name := token.text
        start := token.start
        openAt := openAt
        closeAt := closeAt
        dotted :=
          ((code.take token.start).reverse.dropWhile (· == ' ')).head? == some '.' }
  else
    none

/-- The complete calls of a piece of code whose callee satisfies a condition. -/
def findAll
    (callee? : Text → Bool)
    (code : Text) :
    List Call :=
  ((identifiers code).filter (callee? ·.text)).filterMap (ofToken? code)

/-- The text between the brackets of a call. -/
def inner
    (call : Call)
    (code : Text) :
    Text :=
  (code.take call.closeAt).drop (call.openAt + 1)

/-- The arguments of a call. -/
def arguments
    (call : Call)
    (code : Text) :
    List Text :=
  splitArguments (call.inner code)

end Call

end ScriptUplift
