import ScriptUplift.Text.Digit
import ScriptUplift.Yaml.Node

namespace ScriptUplift

/-!
# Reading scalars

A scalar is written plain, between quotation marks, or as a block of lines.
Plain and quoted scalars may go on over several lines, whose breaks are folded.
-/

namespace Yaml

/-- A scalar that was read: its text, what follows, and whether it went over a line break. -/
structure ScalarRead where
  text : Text
  rest : Text
  crossed : Bool
  deriving Repr, DecidableEq

/-- Fold a run of blanks and line breaks inside a scalar. -/
def foldRun
    (run : Text) :
    Text :=
  if run.contains '\n' then foldBreaks (run.count '\n') else run

/-- Read a scalar after a single quotation mark; a doubled mark stands for itself. -/
def singleQuoted? :
    Nat → Bool → Text → Text → Option ScalarRead
  | 0, _, _, _ =>
      none
  | _, _, _, [] =>
      none
  | fuel + 1, crossed, taken, character :: rest =>
      if character = '\'' then
        match rest with
        | '\'' :: after => singleQuoted? fuel crossed (taken ++ ['\'']) after
        | _ => some ⟨taken, rest, crossed⟩
      else if isGapChar (some character) then
        let run := (character :: rest).takeWhile fun found => isGapChar (some found)
        singleQuoted? fuel (crossed || run.contains '\n') (taken ++ foldRun run)
          ((character :: rest).drop run.length)
      else
        singleQuoted? fuel crossed (taken ++ [character]) rest

/-- The characters that a letter after a backslash stands for. -/
def escapeLetters : List (Char × Nat) :=
  [('0', 0x00), ('a', 0x07), ('b', 0x08), ('t', 0x09), ('\t', 0x09), ('n', 0x0A), ('v', 0x0B),
   ('f', 0x0C), ('r', 0x0D), ('e', 0x1B), (' ', 0x20), ('"', 0x22), ('/', 0x2F), ('\\', 0x5C),
   ('N', 0x85), ('_', 0xA0), ('L', 0x2028), ('P', 0x2029)]

/-- The number of hexadecimal digits after a letter. -/
def escapeDigits? : Char → Option Nat
  | 'x' => some 2
  | 'u' => some 4
  | 'U' => some 8
  | _ => none

/-- Read the character after a backslash. -/
def escape? : Text → Option (Char × Text)
  | [] =>
      none
  | letter :: rest =>
      match escapeDigits? letter with
      | none =>
          (escapeLetters.lookup letter).map fun point => (Char.ofNat point, rest)
      | some count =>
          let digits := rest.take count
          let point := Numeral.valueOf 16 digits
          if digits.length = count && digits.all fun digit => (Numeral.digitValue? digit).isSome then
            if point.isValidChar then some (Char.ofNat point, rest.drop count) else none
          else
            none

/-- Read a scalar after a double quotation mark. -/
def doubleQuoted? :
    Nat → Bool → Text → Text → Option ScalarRead
  | 0, _, _, _ =>
      none
  | _, _, _, [] =>
      none
  | fuel + 1, crossed, taken, character :: rest =>
      if character = '"' then
        some ⟨taken, rest, crossed⟩
      else if character = '\\' then
        match rest with
        | '\n' :: after =>
            let run := after.takeWhile fun found => isGapChar (some found)
            doubleQuoted? fuel true (taken ++ List.replicate (run.count '\n') '\n')
              (after.drop run.length)
        | _ =>
            match escape? rest with
            | some (escaped, after) => doubleQuoted? fuel crossed (taken ++ [escaped]) after
            | none => none
      else if isGapChar (some character) then
        let run := (character :: rest).takeWhile fun found => isGapChar (some found)
        doubleQuoted? fuel (crossed || run.contains '\n') (taken ++ foldRun run)
          ((character :: rest).drop run.length)
      else
        doubleQuoted? fuel crossed (taken ++ [character]) rest

/-- The characters that end a plain scalar inside brackets. -/
def isFlowMark
    (character : Char) :
    Bool :=
  [',', '?', '[', ']', '\x7b', '\x7d'].contains character

/-- The part of a plain scalar on one line, and what follows it. -/
def plainPart
    (flow afterBlank : Bool) :
    Text → Text × Text
  | [] =>
      ([], [])
  | character :: rest =>
      if character = '\n' || (character = '#' && afterBlank) ||
          (character = ':' && isGapChar rest.head?) || (flow && isFlowMark character) then
        ([], character :: rest)
      else
        let (part, after) := plainPart flow (isIndentChar character) rest
        (character :: part, after)

/-- Read the lines on which a plain scalar goes on; they are indented more than what it belongs to. -/
def plainMore
    (indent : Int)
    (flow : Bool) :
    Nat → Bool → Text → Text → ScalarRead
  | 0, crossed, taken, rest =>
      ⟨taken, rest, crossed⟩
  | fuel + 1, crossed, taken, rest =>
      let run := rest.takeWhile fun found => isGapChar (some found)
      let after := rest.drop run.length
      let column := (run.reverse.takeWhile (· != '\n')).length
      let (part, next) := plainPart flow true after
      if !run.contains '\n' || part.isEmpty || (!flow && (column : Int) ≤ indent) then
        ⟨taken, rest, crossed⟩
      else
        plainMore indent flow fuel true
          (taken ++ foldBreaks (run.count '\n') ++ Text.dropEndIndentation part) next

/-- The characters that start something other than a plain scalar. -/
def indicators : List Char :=
  [',', '[', ']', '\x7b', '\x7d', '#', '&', '*', '!', '|', '>', '\'', '"', '%', '@',
   Char.ofNat 0x60]

/-- Whether a plain scalar can start with a character. -/
def startsPlain
    (flow : Bool)
    (character : Char)
    (next : Option Char) :
    Bool :=
  if character = '-' then !isGapChar next
  else if character = '?' || character = ':' then !flow && !isGapChar next
  else
    !isGapChar (some character) && !indicators.contains character

/-- Read a plain scalar. -/
def plain?
    (indent : Int)
    (flow : Bool)
    (text : Text) :
    Option ScalarRead :=
  match text with
  | [] =>
      none
  | character :: rest =>
      if startsPlain flow character rest.head? then
        let (part, after) := plainPart flow false text
        some (plainMore indent flow text.length false (Text.dropEndIndentation part) after)
      else
        none

/-- How a block ends: without a line break, with one, or with all of them. -/
inductive Chomping
  | strip
  | clip
  | keep
  deriving Repr, DecidableEq

/-- The head of a block. -/
structure BlockHead where
  chomping : Chomping := .clip
  indent : Option Nat := none
  deriving Repr, DecidableEq

/-- Read the marks after the bar of a block, in any order. -/
def BlockHead.read : Nat → BlockHead → Text → BlockHead × Text
  | fuel + 1, head, '-' :: rest => BlockHead.read fuel { head with chomping := .strip } rest
  | fuel + 1, head, '+' :: rest => BlockHead.read fuel { head with chomping := .keep } rest
  | fuel + 1, head, digit :: rest =>
      if '1' ≤ digit && digit ≤ '9' then
        BlockHead.read fuel { head with indent := some (digit.toNat - '0'.toNat) } rest
      else
        (head, digit :: rest)
  | _, head, rest => (head, rest)

/-- The spaces a line begins with. -/
def spaceCount
    (line : Text) :
    Nat :=
  (line.takeWhile (· == ' ')).length

/-- The lines of a block and the ones after it. -/
def blockLines
    (indent : Nat) :
    List Text → List Text × List Text
  | [] =>
      ([], [])
  | line :: rest =>
      if spaceCount line < indent && !line.all (· == ' ') then
        ([], line :: rest)
      else
        let (lines, after) := blockLines indent rest
        (line.drop indent :: lines, after)

/-- Whether a line of a block is indented more than the block. -/
def isIndentedMore
    (line : Text) :
    Bool :=
  line.head?.any isIndentChar

/-- Fold the lines of a block, given the line before and the empty lines since. -/
def foldLines :
    Text → Nat → List Text → Text
  | _, _, [] =>
      []
  | before, empties, line :: rest =>
      if line.isEmpty then
        foldLines before (empties + 1) rest
      else
        let breaks :=
          if isIndentedMore before || isIndentedMore line then List.replicate (empties + 1) '\n'
          else if empties = 0 then [' ']
          else List.replicate empties '\n'
        breaks ++ line ++ foldLines line 0 rest

/-- The text of the lines of a block without the ones at its end that are empty. -/
def blockText
    (folded : Bool)
    (lines : List Text) :
    Text :=
  if folded then
    match lines.dropWhile List.isEmpty with
    | [] => []
    | first :: rest =>
        List.replicate (lines.takeWhile List.isEmpty).length '\n' ++ first ++
          foldLines first 0 rest
  else
    Text.joinWith ['\n'] lines

/-- The end of a block, given the number of empty lines at its end. -/
def blockEnd
    (chomping : Chomping)
    (endsInBreak hasText : Bool)
    (empties : Nat) :
    Text :=
  match chomping with
  | .strip => []
  | .clip => if hasText && endsInBreak then ['\n'] else []
  | .keep =>
      (if hasText && endsInBreak then ['\n'] else []) ++ List.replicate empties '\n'

/-- Read a block after its bar. -/
def block?
    (indent : Int)
    (folded : Bool)
    (text : Text) :
    Option ScalarRead :=
  let (head, afterHead) := BlockHead.read 2 {} text
  let afterBlanks := afterHead.dropWhile isIndentChar
  let afterComment :=
    if afterBlanks.head? = some '#' then afterBlanks.dropWhile (· != '\n') else afterBlanks
  match afterComment with
  | [] =>
      some ⟨[], [], true⟩
  | '\n' :: body =>
      let lines := Text.splitAt '\n' body
      let first := (lines.dropWhile fun line => line.all (· == ' ')).head?
      let found := (first.map spaceCount).getD 0
      let least := (indent + 1).toNat
      let width :=
        match head.indent with
        | some width => (max indent 0).toNat + width
        | none => max (max found least) 1
      let (inside, after) := blockLines width lines
      -- The last piece of a text that ends in a break is no line of its own.
      let whole := if after.isEmpty then inside.dropLast else inside
      let open? := after.isEmpty && !(inside.getLast?.getD []).isEmpty
      let counted := if open? then inside else whole
      let kept := (counted.reverse.dropWhile List.isEmpty).reverse
      let empties := counted.length - kept.length
      some ⟨blockText folded kept ++
          blockEnd head.chomping (!open? || 0 < empties) (!kept.isEmpty) empties,
        Text.joinWith ['\n'] after, true⟩
  | _ =>
      none

end Yaml

end ScriptUplift
