import ScriptUplift.Pattern.Basic
import ScriptUplift.Text.Digit

namespace ScriptUplift

/-!
# The notation of patterns

Patterns are written as regular expressions.  The notation is first cut into
marks, then the marks are put together: groups and alternatives are kept on a
stack of open frames.  A text that is not in the notation has no pattern.
-/

namespace Pattern

/-- A piece of the notation. -/
inductive Mark
  | part (pattern : Pattern)
  | repetition (least : Nat) (most : Option Nat)
  | opening
  | closing
  | bar
  deriving Repr, DecidableEq

/-- The classes that have a name in the notation of sets. -/
def namedSets : List (String × List (Nat × Nat)) :=
  [("alnum", [(0x30, 0x39), (0x41, 0x5A), (0x61, 0x7A)]),
   ("alpha", [(0x41, 0x5A), (0x61, 0x7A)]),
   ("ascii", [(0x00, 0x7F)]),
   ("blank", [(0x09, 0x09), (0x20, 0x20)]),
   ("cntrl", [(0x00, 0x1F), (0x7F, 0x7F)]),
   ("digit", [(0x30, 0x39)]),
   ("graph", [(0x21, 0x7E)]),
   ("lower", [(0x61, 0x7A)]),
   ("print", [(0x20, 0x7E)]),
   ("punct", [(0x21, 0x2F), (0x3A, 0x40), (0x5B, 0x60), (0x7B, 0x7E)]),
   ("space", [(0x09, 0x0D), (0x20, 0x20)]),
   ("upper", [(0x41, 0x5A)]),
   ("word", [(0x30, 0x39), (0x41, 0x5A), (0x5F, 0x5F), (0x61, 0x7A)]),
   ("xdigit", [(0x30, 0x39), (0x41, 0x46), (0x61, 0x66)])]

/-- The set a letter after a backslash stands for. -/
def letterSet? : Char → Option CharSet
  | 'd' => some (.ofRanges [(0x30, 0x39)])
  | 'D' => some (.outside (.ofRanges [(0x30, 0x39)]))
  | 's' => some (.ofRanges [(0x09, 0x0A), (0x0C, 0x0D), (0x20, 0x20)])
  | 'S' => some (.outside (.ofRanges [(0x09, 0x0A), (0x0C, 0x0D), (0x20, 0x20)]))
  | 'w' => some (.ofRanges [(0x30, 0x39), (0x41, 0x5A), (0x5F, 0x5F), (0x61, 0x7A)])
  | 'W' => some (.outside (.ofRanges [(0x30, 0x39), (0x41, 0x5A), (0x5F, 0x5F), (0x61, 0x7A)]))
  | _ => none

/-- The code point a letter after a backslash stands for. -/
def controlLetter? : Char → Option Nat
  | 'a' => some 0x07
  | 'f' => some 0x0C
  | 'n' => some 0x0A
  | 'r' => some 0x0D
  | 't' => some 0x09
  | 'v' => some 0x0B
  | _ => none

/-- Whether a character is an octal digit. -/
def isOctalChar
    (character : Char) :
    Bool :=
  '0' ≤ character && character ≤ '7'

/-- Whether a character is a hexadecimal digit. -/
def isHexChar
    (character : Char) :
    Bool :=
  (Numeral.digitValue? character).isSome

/-- Read a code point in octal: at most three digits. -/
def octalEscape
    (digits : Text) :
    Nat × Text :=
  let taken := (digits.take 3).takeWhile isOctalChar
  (Numeral.valueOf 8 taken, digits.drop taken.length)

/-- Read a code point in hexadecimal: two digits, or any number of them in braces. -/
def hexEscape? : Text → Option (Nat × Text)
  | '\x7b' :: rest =>
      let digits := rest.takeWhile (· != '\x7d')
      match rest.drop digits.length with
      | '\x7d' :: after =>
          if !digits.isEmpty && digits.all isHexChar && Numeral.valueOf 16 digits ≤ 0x10FFFF then
            some (Numeral.valueOf 16 digits, after)
          else
            none
      | _ =>
          none
  | first :: second :: rest =>
      if isHexChar first && isHexChar second then
        some (Numeral.valueOf 16 [first, second], rest)
      else
        none
  | _ =>
      none

/-- Read the code point after a backslash. -/
def escape? : Text → Option (Nat × Text)
  | [] =>
      none
  | 'x' :: rest =>
      hexEscape? rest
  | character :: rest =>
      if character = '0' || (isOctalChar character && rest.head?.any isOctalChar) then
        some (octalEscape (character :: rest))
      else if character.toNat < 0x80 && !isLetterChar character && !isDigitChar character then
        some (character.toNat, rest)
      else
        (controlLetter? character).map (·, rest)

/-- Read one end of a range in a set. -/
def setChar? : Text → Option (Nat × Text)
  | [] => none
  | '\\' :: rest => escape? rest
  | character :: rest => some (character.toNat, rest)

/-- Read a named class with its brackets; `none` if no name stands there. -/
def namedSet? : Text → Option (Option (CharSet × Text))
  | '[' :: ':' :: rest =>
      match Text.indexOf? ":]".toList rest with
      | none =>
          none
      | some size =>
          let (negated, name) :=
            match rest.take size with
            | '^' :: name => (true, name)
            | name => (false, name)
          some ((namedSets.lookup (String.ofList name)).map fun ranges =>
            (.negatedIf negated (.ofRanges ranges), rest.drop (size + 2)))
  | _ =>
      none

/-- Read a member of a set: a class or a range. -/
def setMember?
    (text : Text) :
    Option (CharSet × Text) :=
  match namedSet? text with
  | some found =>
      found
  | none =>
      match text with
      | '\\' :: 'p' :: _ => none
      | '\\' :: 'P' :: _ => none
      | _ =>
          match text with
          | '\\' :: letter :: rest =>
              match letterSet? letter with
              | some set => some (set, rest)
              | none => range? text
          | _ => range? text
where
  /-- Read a character or a range of characters. -/
  range?
      (text : Text) :
      Option (CharSet × Text) :=
    match setChar? text with
    | none =>
        none
    | some (low, rest) =>
        match rest with
        | '-' :: next :: after =>
            if next = ']' then
              some (.range low low, rest)
            else
              match setChar? (next :: after) with
              | some (high, last) => if high < low then none else some (.range low high, last)
              | none => none
        | _ =>
            some (.range low low, rest)

/--
Read the members of a set up to its closing bracket; a bracket in first place is
a member.  Every member takes at least one character, so the length of the text
is fuel enough.
-/
def setMembers? :
    Nat → Bool → Text → Option (CharSet × Text)
  | 0, _, _ =>
      none
  | fuel + 1, first, text =>
      match text with
      | ']' :: rest =>
          if first then more fuel text else some (.nothing, rest)
      | _ =>
          more fuel text
where
  /-- Read a member and the ones after it. -/
  more
      (fuel : Nat)
      (text : Text) :
      Option (CharSet × Text) :=
    match setMember? text with
    | none =>
        none
    | some (set, rest) =>
        match setMembers? fuel false rest with
        | none => none
        | some (sets, after) => some (.union set sets, after)

/-- Read a set after its opening bracket. -/
def set? : Text → Option (CharSet × Text)
  | '^' :: rest =>
      (setMembers? (rest.length + 1) true rest).map fun found => (.outside found.1, found.2)
  | text =>
      setMembers? (text.length + 1) true text

/-- Read a number of repetitions: digits without a leading zero. -/
def count?
    (text : Text) :
    Option (Nat × Text) :=
  let digits := text.takeWhile isDigitChar
  match digits with
  | [] =>
      none
  | '0' :: _ :: _ =>
      none
  | _ =>
      some (Numeral.valueOf 10 digits, text.drop digits.length)

/-- Read the bounds of a repetition after an opening brace. -/
def bounds?
    (text : Text) :
    Option (Nat × Option Nat × Text) :=
  match count? text with
  | some (least, '\x7d' :: rest) =>
      some (least, some least, rest)
  | some (least, ',' :: '\x7d' :: rest) =>
      some (least, none, rest)
  | some (least, ',' :: rest) =>
      match count? rest with
      | some (most, '\x7d' :: after) => some (least, some most, after)
      | _ => none
  | _ =>
      none

/-- The most repetitions a pattern may ask for. -/
def repetitionLimit : Nat :=
  1000

/-- Every character but a line break. -/
def anyChar : Pattern :=
  .one (.outside (.single '\n'))

/-- The marks of a text that stands for itself. -/
def literalMarks
    (text : Text) :
    List Mark :=
  text.map fun character => .part (literal character)

/-- Read the marks a backslash begins. -/
def escapeMarks? : Text → Option (List Mark × Text)
  | 'A' :: rest => some ([.part .start], rest)
  | 'z' :: rest => some ([.part .finish], rest)
  | 'b' :: rest => some ([.part (.boundary false)], rest)
  | 'B' :: rest => some ([.part (.boundary true)], rest)
  | 'Q' :: rest =>
      match Text.indexOf? "\\E".toList rest with
      | some size => some (literalMarks (rest.take size), rest.drop (size + 2))
      | none => some (literalMarks rest, [])
  | text =>
      match text.head?.bind letterSet? with
      | some set => some ([.part (.one set)], text.drop 1)
      | none => (escape? text).map fun found => ([.part (.one (.range found.1 found.1))], found.2)

/-- Read the next marks of a text that is not empty. -/
def nextMarks?
    (character : Char)
    (rest : Text) :
    Option (List Mark × Text) :=
  match character with
  | '(' => some ([.opening], rest)
  | ')' => some ([.closing], rest)
  | '|' => some ([.bar], rest)
  | '^' => some ([.part .start], rest)
  | '$' => some ([.part .finish], rest)
  | '.' => some ([.part anyChar], rest)
  | '*' => some ([.repetition 0 none], rest)
  | '+' => some ([.repetition 1 none], rest)
  | '?' => some ([.repetition 0 (some 1)], rest)
  | '[' => (set? rest).map fun found => ([.part (.one found.1)], found.2)
  | '\\' => escapeMarks? rest
  | '\x7b' =>
      match bounds? rest with
      | none =>
          some ([.part (literal character)], rest)
      | some (least, most, after) =>
          if repetitionLimit < least || most.any fun top => repetitionLimit < top || top < least then
            none
          else
            some ([.repetition least most], after)
  | _ => some ([.part (literal character)], rest)

/-- Cut a text into marks; every step takes a character, so its length is fuel enough. -/
def marks? :
    Nat → Text → Option (List Mark)
  | _, [] =>
      some []
  | 0, _ =>
      none
  | fuel + 1, character :: rest =>
      match nextMarks? character rest with
      | none =>
          none
      | some (marks, after) =>
          (marks? fuel after).map (marks ++ ·)

/-- A group that is still open: its finished alternatives and the current one, last part first. -/
structure Frame where
  finished : List Pattern := []
  parts : List Pattern := []
  deriving Repr, DecidableEq

namespace Frame

/-- Put a part at the end of the current alternative. -/
def push
    (frame : Frame)
    (part : Pattern) :
    Frame :=
  { frame with parts := part :: frame.parts }

/-- Finish the current alternative. -/
def finish
    (frame : Frame) :
    Frame :=
  { finished := frame.finished ++ [sequence frame.parts.reverse] }

/-- The pattern of a group. -/
def pattern
    (frame : Frame) :
    Pattern :=
  frame.finished.foldr .either (sequence frame.parts.reverse)

end Frame

/--
Put marks together, given the innermost open frame and the ones around it.  A
repetition needs a part before it that is not itself a repetition.
-/
def assemble? :
    Frame → List Frame → Bool → List Mark → Option Pattern
  | frame, [], _, [] =>
      some frame.pattern
  | _, _ :: _, _, [] =>
      none
  | frame, outer, _, .part pattern :: rest =>
      assemble? (frame.push pattern) outer false rest
  | frame, outer, _, .opening :: rest =>
      assemble? {} (frame :: outer) false rest
  | frame, outer, _, .bar :: rest =>
      assemble? frame.finish outer false rest
  | frame, around :: outer, _, .closing :: rest =>
      assemble? (around.push frame.pattern) outer false rest
  | _, [], _, .closing :: _ =>
      none
  | frame, outer, afterRepetition, .repetition least most :: rest =>
      match afterRepetition, frame.parts with
      | false, part :: parts =>
          let pattern := Pattern.repeated part least most
          if pattern.repeatsAtMost repetitionLimit then
            assemble? { frame with parts := pattern :: parts } outer true rest
          else
            none
      | _, _ =>
          none

/-- The pattern a text writes. -/
def parse?
    (text : Text) :
    Option Pattern :=
  (marks? text.length text).bind (assemble? {} [] false)

end Pattern

end ScriptUplift
