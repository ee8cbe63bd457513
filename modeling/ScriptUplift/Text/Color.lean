namespace ScriptUplift

/-!
# Coloured output

Output may be wrapped in the escape sequences that terminals understand.
-/

/-- A way to set off a piece of output: the codes that switch it on and off. -/
structure Paint where
  on : String
  off : String
  deriving Repr, DecidableEq

namespace Paint

/-- Headings. -/
def bold : Paint :=
  ⟨"1", "22"⟩

/-- Places. -/
def faint : Paint :=
  ⟨"2", "22"⟩

/-- Hints. -/
def cyan : Paint :=
  ⟨"36", "0"⟩

/-- Warnings. -/
def yellowBold : Paint :=
  ⟨"33;1", "0;22"⟩

/-- Errors. -/
def redBold : Paint :=
  ⟨"31;1", "0;22"⟩

/-- Set off a text if colours are wanted. -/
def apply
    (paint : Paint)
    (colored : Bool)
    (text : String) :
    String :=
  if colored then
    "\x1b[" ++ paint.on ++ "m" ++ text ++ "\x1b[" ++ paint.off ++ "m"
  else
    text

end Paint

/-- Fill a text with spaces on the right up to a width in characters. -/
def padRight
    (width : Nat)
    (text : String) :
    String :=
  text ++ String.ofList (List.replicate (width - text.length) ' ')

end ScriptUplift
