import ScriptUplift.Yaml.Scalar

namespace ScriptUplift

/-!
# Reading documents

A document is read by descent.  What belongs to a mapping or a sequence of lines
is told by its column; inside brackets columns mean nothing.  Of a stream only the
first document is read.  A text that is not well formed has no document.
-/

namespace Yaml

/-- The letters of the name of a node. -/
def isAnchorChar
    (character : Char) :
    Bool :=
  isPatternWord character || character == '-'

/-- The short form of a tag. -/
def shortTag
    (tag : Text) :
    Text :=
  match Text.afterHead? tag "!<tag:yaml.org,2002:".toList with
  | some name => "!!".toList ++ Text.dropEndWhile (· == '>') name
  | none => tag

/-- The line break and the spaces before a node decide whether it starts on a new line. -/
structure Site where
  /-- The column of what the node belongs to. -/
  indent : Int
  /-- The node stands inside brackets. -/
  flow : Bool
  /-- A mapping or sequence of lines may start here. -/
  block : Bool
  deriving Repr, DecidableEq

/-- A node that can be a key, what follows it, and whether it goes over a line break. -/
abbrev SimpleRead := YamlNode × Cursor × Bool

/-- Read a quoted or plain scalar. -/
def scalar?
    (site : Site)
    (cursor : Cursor) :
    Option SimpleRead :=
  let found :=
    match cursor.rest with
    | '"' :: rest => (doubleQuoted? (rest.length + 1) false [] rest).map (·, false)
    | '\'' :: rest => (singleQuoted? (rest.length + 1) false [] rest).map (·, false)
    | rest => (plain? site.indent site.flow rest).map (·, true)
  found.map fun (read, plain) =>
    (.scalar read.text plain none, cursor.moveTo read.rest, read.crossed)

mutual

/-- Read a node; the cursor stands at its first character. -/
def node? :
    Nat → Site → Cursor → Option (YamlNode × Cursor)
  | 0, _, _ =>
      none
  | fuel + 1, site, cursor =>
      match cursor.rest with
      | [] =>
          some (.absent, cursor)
      | '&' :: rest =>
          let name := rest.takeWhile isAnchorChar
          if name.isEmpty then none
          else
            (afterProperty? fuel site (cursor.advance (name.length + 1))).map fun (node, next) =>
              (node, { next with anchors := (name, node) :: next.anchors })
      | '!' :: _ =>
          let tag := cursor.rest.takeWhile fun found =>
            !isGapChar (some found) && !(site.flow && isFlowMark found)
          (afterProperty? fuel site (cursor.advance tag.length)).map fun (node, next) =>
            (node.withTag (shortTag tag), next)
      | '*' :: rest =>
          let name := rest.takeWhile isAnchorChar
          (cursor.anchors.lookup name).map fun node => (node, cursor.advance (name.length + 1))
      | character :: rest =>
          if !site.flow && (character = '|' || character = '>') then
            (block? site.indent (character = '>') rest).map fun read =>
              (.scalar read.text false none, { cursor with rest := '\n' :: read.rest })
          else if !site.flow && cursor.atMark '-' then
            if site.block then blockSequence? fuel cursor.column false [] cursor else none
          else
            match simple? fuel site cursor with
            | none =>
                none
            | some (node, next, crossed) =>
                if !site.flow && next.skipBlanks.atMark ':' then
                  if site.block && !crossed then
                    blockMapping? fuel cursor.column [] node next.skipBlanks
                  else
                    none
                else
                  some (node, next)

/-- Read the node after its name or its tag. -/
def afterProperty? :
    Nat → Site → Cursor → Option (YamlNode × Cursor)
  | 0, _, _ =>
      none
  | fuel + 1, site, cursor =>
      let (crossed, next) := cursor.skip site.flow true
      if next.rest.isEmpty || (!site.flow && crossed && (next.column : Int) ≤ site.indent) ||
          (site.flow && next.rest.head?.any isFlowMark && next.rest.head? != some '[' &&
            next.rest.head? != some '\x7b') then
        some (.absent, cursor)
      else
        node? fuel { site with block := site.block || (crossed && !site.flow) } next

/-- Read a node that can be a key. -/
def simple? :
    Nat → Site → Cursor → Option SimpleRead
  | 0, _, _ =>
      none
  | fuel + 1, site, cursor =>
      let flowRead := fun (found : Option (YamlNode × Cursor)) =>
        found.map fun (node, next) =>
          (node, next, (cursor.rest.take (cursor.rest.length - next.rest.length)).contains '\n')
      match cursor.rest with
      | '[' :: _ => flowRead (flowSequence? fuel [] (cursor.advance 1))
      | '\x7b' :: _ => flowRead (flowMapping? fuel [] (cursor.advance 1))
      | _ => scalar? site cursor

/-- Read the items of a sequence of lines at a column; the cursor stands at a dash. -/
def blockSequence? :
    Nat → Nat → Bool → List YamlNode → Cursor → Option (YamlNode × Cursor)
  | 0, _, _, _, _ =>
      none
  | fuel + 1, column, shared, items, cursor =>
      let (crossed, start) := (cursor.advance 1).skip false false
      let item :=
        if start.rest.isEmpty || (crossed && start.column ≤ column) then some (.absent, start)
        else node? fuel ⟨column, false, true⟩ start
      match item with
      | none =>
          none
      | some (node, after) =>
          let (_, next) := after.skip false true
          let taken := items ++ [node]
          if next.rest.isEmpty || next.column < column then
            some (.sequence taken, next)
          else if next.column = column && next.atMark '-' then
            blockSequence? fuel column shared taken next
          else if next.column = column && shared then
            some (.sequence taken, next)
          else
            none

/-- Read the pairs of a mapping of lines at a column; the cursor stands at the colon after a key. -/
def blockMapping? :
    Nat → Nat → List (YamlNode × YamlNode) → YamlNode → Cursor → Option (YamlNode × Cursor)
  | 0, _, _, _, _ =>
      none
  | fuel + 1, column, pairs, key, cursor =>
      let (crossed, start) := (cursor.advance 1).skip false true
      let value :=
        if start.rest.isEmpty then some (.absent, start)
        else if !crossed then node? fuel ⟨column, false, false⟩ start
        else if column < start.column then node? fuel ⟨column, false, true⟩ start
        else if start.column = column && start.atMark '-' then
          blockSequence? fuel column true [] start
        else some (.absent, start)
      match value with
      | none =>
          none
      | some (node, after) =>
          let (_, next) := after.skip false true
          let taken := pairs ++ [(key, node)]
          if next.rest.isEmpty || next.column < column then
            some (.mapping taken, next)
          else if next.column = column then
            match simple? fuel ⟨column, false, false⟩ next with
            | some (following, colon, false) =>
                if colon.skipBlanks.atMark ':' then
                  blockMapping? fuel column taken following colon.skipBlanks
                else
                  none
            | _ =>
                none
          else
            none

/-- Read the items of a sequence in brackets. -/
def flowSequence? :
    Nat → List YamlNode → Cursor → Option (YamlNode × Cursor)
  | 0, _, _ =>
      none
  | fuel + 1, items, cursor =>
      let (_, start) := cursor.skip true true
      if start.rest.head? = some ']' then
        some (.sequence items, start.advance 1)
      else
        match flowPair? fuel start with
        | none =>
            none
        | some (key, value, after) =>
            let taken := items ++ [
              match value with
              | some value => .mapping [(key, value)]
              | none => key]
            match after.rest with
            | ',' :: _ => flowSequence? fuel taken (after.advance 1)
            | ']' :: _ => some (.sequence taken, after.advance 1)
            | _ => none

/-- Read the pairs of a mapping in braces. -/
def flowMapping? :
    Nat → List (YamlNode × YamlNode) → Cursor → Option (YamlNode × Cursor)
  | 0, _, _ =>
      none
  | fuel + 1, pairs, cursor =>
      let (_, start) := cursor.skip true true
      if start.rest.head? = some '\x7d' then
        some (.mapping pairs, start.advance 1)
      else
        match flowPair? fuel start with
        | none =>
            none
        | some (key, value, after) =>
            let taken := pairs ++ [(key, value.getD .absent)]
            match after.rest with
            | ',' :: _ => flowMapping? fuel taken (after.advance 1)
            | '\x7d' :: _ => some (.mapping taken, after.advance 1)
            | _ => none

/-- Read a node in brackets and, after a colon, its value; the cursor ends at a mark. -/
def flowPair? :
    Nat → Cursor → Option (YamlNode × Option YamlNode × Cursor)
  | 0, _ =>
      none
  | fuel + 1, cursor =>
      let site : Site := ⟨-1, true, false⟩
      match cursor.rest with
      | [] =>
          none
      | character :: rest =>
          let key :=
            if character = ':' && isGapChar rest.head? then some (.absent, cursor)
            else node? fuel site cursor
          match key with
          | none =>
              none
          | some (node, after) =>
              let (_, next) := after.skip true true
              if next.rest.head? = some ':' then
                let (_, start) := (next.advance 1).skip true true
                if start.rest.head?.any fun mark => [',', ']', '\x7d'].contains mark then
                  some (node, some .absent, start)
                else
                  (node? fuel site start).map fun (value, last) =>
                    (node, some value, (last.skip true true).2)
              else
                some (node, none, next)

end

/-- Whether a line divides documents. -/
def isDivider
    (mark : String)
    (line : Text) :
    Bool :=
  line.startsWith mark.toList && isGapChar (line.drop 3).head?

/-- Whether a line holds nothing but spaces and a comment. -/
def isEmptyLine
    (line : Text) :
    Bool :=
  (line.dropWhile (· == ' ')).head?.all (· == '#')

/-- The lines up to the end of a document. -/
def untilDivider
    (lines : List Text) :
    List Text :=
  lines.takeWhile fun line => !isDivider "---" line && !isDivider "..." line

/-- The lines of the first document, and whether a mapping of lines may start at once. -/
def firstDocument? :
    Bool → List Text → Option (List Text × Bool)
  | directive, [] =>
      if directive then none else some ([], true)
  | directive, line :: rest =>
      if isEmptyLine line || isDivider "..." line then
        firstDocument? directive rest
      else if line.head? = some '%' then
        firstDocument? true rest
      else if isDivider "---" line then
        some (("   ".toList ++ line.drop 3) :: untilDivider rest, isEmptyLine (line.drop 3))
      else if directive then
        none
      else
        some (untilDivider (line :: rest), true)

/-- Whether a character may stand in a document. -/
def isAllowed
    (character : Char) :
    Bool :=
  let point := character.toNat
  point = 0x09 || point = 0x0A || point = 0x0D || (0x20 ≤ point && point ≤ 0x7E) ||
    point = 0x85 || (0xA0 ≤ point && point ≤ 0xFFFD && point != 0xFEFF) || 0x10000 ≤ point

/-- Make every line break a line feed. -/
def normalBreaks : Text → Text
  | [] => []
  | '\r' :: '\n' :: rest => '\n' :: normalBreaks rest
  | '\r' :: rest => '\n' :: normalBreaks rest
  | character :: rest => character :: normalBreaks rest

/-- Drop the mark of byte order. -/
def dropByteOrderMark : Text → Text
  | '\uFEFF' :: rest => rest
  | text => text

/-- Read the first document of a text; no document at all reads as nothing. -/
def parse?
    (text : Text) :
    Option YamlNode :=
  let body := dropByteOrderMark text
  if !body.all isAllowed then
    none
  else
    match firstDocument? false (Text.splitAt '\n' (normalBreaks body)) with
    | none =>
        none
    | some (lines, block) =>
        let whole := Text.joinWith ['\n'] lines
        let (crossed, start) := Cursor.skip ⟨whole, 0, []⟩ false false
        if start.rest.isEmpty then
          some .absent
        else
          (node? (4 * whole.length + 8) ⟨-1, false, block || crossed⟩ start).map Prod.fst

end Yaml

end ScriptUplift
