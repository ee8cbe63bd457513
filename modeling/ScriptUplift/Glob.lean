import ScriptUplift.Text.Basic

namespace ScriptUplift

/-!
# Globs

A glob describes names.  `?` stands for a character and `*` for a run of
characters, neither of them a slash; `**` as a whole segment stands for any
number of segments; `[a-z]` and `[!a-z]` stand for a character, `{a,b}` for
alternatives, and a backslash takes the meaning from the character after it.

A star first stands for nothing and takes in more of the name when the rest does
not fit.  Only the last star and the last segment star are tried again.
-/

namespace Glob

/-- The outcome of a comparison. -/
inductive Verdict
  | fits
  | differs
  /-- The glob is not well formed. -/
  | malformed
  deriving Repr, DecidableEq

/-- The text after the first bracket that closes a character class. -/
def afterClass? : Text → Option Text
  | [] => none
  | '\\' :: _ :: rest => afterClass? rest
  | ']' :: rest => some rest
  | _ :: rest => afterClass? rest

/-- Cut a text at the brace that closes the given number of open ones. -/
def closeBrace? :
    Nat → Text → Option (Text × Text)
  | _, [] =>
      none
  | depth, '\\' :: character :: rest =>
      (closeBrace? depth rest).map fun (inside, after) => ('\\' :: character :: inside, after)
  | depth, '\x7b' :: rest =>
      (closeBrace? (depth + 1) rest).map fun (inside, after) => ('\x7b' :: inside, after)
  | 0, '\x7d' :: rest =>
      some ([], rest)
  | depth + 1, '\x7d' :: rest =>
      (closeBrace? depth rest).map fun (inside, after) => ('\x7d' :: inside, after)
  | depth, character :: rest =>
      (closeBrace? depth rest).map fun (inside, after) => (character :: inside, after)

/-- Put a character in front of the first piece. -/
def extendFirst
    (head : Text) :
    List Text → List Text
  | [] => [head]
  | piece :: pieces => (head ++ piece) :: pieces

/-- The alternatives between two braces: cut at the commas outside inner braces. -/
def alternatives :
    Nat → Text → List Text
  | _, [] =>
      [[]]
  | depth, '\\' :: character :: rest =>
      extendFirst ['\\', character] (alternatives depth rest)
  | 0, ',' :: rest =>
      [] :: alternatives 0 rest
  | depth, character :: rest =>
      let inner :=
        if character = '\x7b' then depth + 1
        else if character = '\x7d' then depth - 1
        else depth
      extendFirst [character] (alternatives inner rest)

/-- Whether the classes, braces and escapes of a glob are well formed, given the open braces. -/
def wellFormed :
    Nat → Nat → Text → Bool
  | _, depth, [] =>
      depth == 0
  | 0, _, _ =>
      false
  | fuel + 1, depth, character :: rest =>
      match character with
      | '\\' =>
          !rest.isEmpty && wellFormed fuel depth (rest.drop 1)
      | '[' =>
          let members :=
            if rest.head? = some '^' || rest.head? = some '!' then rest.drop 1 else rest
          match members with
          | [] => false
          | ']' :: _ => false
          | _ =>
              match afterClass? members with
              | some after => wellFormed fuel depth after
              | none => false
      | '\x7b' =>
          wellFormed fuel (depth + 1) rest
      | '\x7d' =>
          match depth with
          | 0 => false
          | outer + 1 => wellFormed fuel outer rest
      | _ =>
          wellFormed fuel depth rest

/-- Whether a glob or the rest of one is well formed. -/
def isWellFormed
    (glob : Text) :
    Bool :=
  wellFormed glob.length 0 glob

/-- The outcome of a failed comparison with the rest of a glob. -/
def failed
    (rest : Text) :
    Verdict :=
  if isWellFormed rest then .differs else .malformed

/--
Look for a character among the members of a class, given the member before as the
possible start of a range.  The answer is whether it was found and the text from
there on; without a hit that text starts with the closing bracket.
-/
def findMember
    (character : Char) :
    Nat → Option Char → Text → Bool × Text
  | 0, _, text =>
      (false, text)
  | _, _, [] =>
      (false, [])
  | _, _, ']' :: rest =>
      (false, ']' :: rest)
  | fuel + 1, low, member :: rest =>
      match low, member, rest with
      | some low, '-', next :: after =>
          if next = ']' then
            plain fuel member rest
          else
            let (high, last) :=
              match next, after with
              | '\\', escaped :: last => (escaped, last)
              | '\\', [] => ('\uFFFD', [])
              | _, _ => (next, after)
            if low ≤ character && character ≤ high then (true, last)
            else findMember character fuel none last
      | _, _, _ =>
          plain fuel member rest
where
  /-- Compare with one member that is no range. -/
  plain
      (fuel : Nat)
      (member : Char)
      (rest : Text) :
      Bool × Text :=
    let (own, after) :=
      match member, rest with
      | '\\', escaped :: after => (escaped, after)
      | '\\', [] => ('\uFFFD', [])
      | _, _ => (member, rest)
    if own = character then (true, after)
    else findMember character fuel (some own) after

/-- What comparing a character with a class gives. -/
inductive ClassVerdict
  /-- The character is in the class; the glob goes on after it. -/
  | fits (rest : Text)
  /-- The character is not in the class. -/
  | differs (rest : Text)
  | malformed
  deriving Repr, DecidableEq

/-- Compare a character with the class after an opening bracket. -/
def classVerdict
    (character : Char)
    (text : Text) :
    ClassVerdict :=
  let negated := text.head? = some '!' || text.head? = some '^'
  let members := if negated then text.drop 1 else text
  match members with
  | [] => .malformed
  | ']' :: _ => .malformed
  | _ =>
      let (found, rest) := findMember character members.length none members
      if found = negated then
        if rest.isEmpty then .malformed else .differs rest
      else
        match afterClass? rest with
        | some after => .fits after
        | none => .malformed

/-- The rests of glob and name at which a star takes in more of the name. -/
structure Retry where
  glob : Text
  name : Text
  deriving Repr, DecidableEq

/-- The state of a comparison. -/
structure State where
  glob : Text
  name : Text
  /-- The glob stands at the start of a segment. -/
  segmentStart : Bool := true
  /-- The last star. -/
  star : Option Retry := none
  /-- The last segment star. -/
  segments : Option Retry := none
  deriving Repr, DecidableEq

namespace State

/-- Let the last segment star take in one more segment. -/
def retrySegments
    (state : State) :
    Except Verdict State :=
  match state.segments with
  | some retry =>
      match retry.name.dropWhile (· != '/') with
      | _ :: name =>
          .ok { state with
            glob := retry.glob
            name := name
            segmentStart := true
            segments := some ⟨retry.glob, name⟩ }
      | [] =>
          .error (failed state.glob)
  | none =>
      .error (failed state.glob)

/-- Let the last star take in one more character, or else the last segment star one more segment. -/
def retry
    (state : State) :
    Except Verdict State :=
  match state.star with
  | some ⟨glob, character :: name⟩ =>
      if character = '/' then
        state.retrySegments
      else
        .ok { state with
          glob := glob
          name := name
          segmentStart := false
          star := some ⟨glob, name⟩ }
  | _ =>
      state.retrySegments

/-- Meet a star. -/
def meetStar
    (state : State)
    (rest : Text) :
    State :=
  { state with glob := rest, segmentStart := false, star := some ⟨rest, state.name⟩ }

/-- Meet two stars: only a whole segment of them is a segment star. -/
def meetTwoStars
    (state : State)
    (rest : Text) :
    Except Verdict State :=
  match state.segmentStart, rest with
  | true, [] =>
      .error .fits
  | true, '/' :: after =>
      .ok { state with glob := after, star := none, segments := some ⟨after, state.name⟩ }
  | _, _ =>
      .ok (state.meetStar rest)

/-- Compare a character of the glob that stands for itself. -/
def meetLiteral
    (state : State)
    (own character : Char)
    (rest name : Text) :
    Except Verdict State :=
  if own = character then
    .ok { state with glob := rest, name := name, segmentStart := own == '/' }
  else
    state.retry

/-- One step of a comparison with a name that is not at its end, outside braces. -/
def step
    (state : State)
    (character : Char)
    (name : Text) :
    Except Verdict State :=
  match state.glob with
  | [] =>
      state.retry
  | '*' :: '*' :: rest =>
      state.meetTwoStars rest
  | '*' :: rest =>
      .ok (state.meetStar rest)
  | '?' :: rest =>
      if character = '/' then
        retry { state with segmentStart := false }
      else
        .ok { state with glob := rest, name := name, segmentStart := false }
  | '[' :: rest =>
      match classVerdict character rest with
      | .fits after => .ok { state with glob := after, name := name, segmentStart := false }
      | .differs after => retry { state with glob := after, segmentStart := false }
      | .malformed => .error .malformed
  | '\\' :: [] =>
      .error .malformed
  | '\\' :: own :: rest =>
      state.meetLiteral own character rest name
  | own :: rest =>
      state.meetLiteral own character rest name

/-- Replace the rest of the glob, also where a star would be tried again. -/
def splice
    (state : State)
    (glob : Text) :
    State :=
  let patch := fun (retry : Retry) =>
    { retry with glob := retry.glob.take (retry.glob.length - state.glob.length) ++ glob }
  { state with
    glob := glob
    segmentStart := true
    star := state.star.map patch
    segments := state.segments.map patch }

end State

/-- The first verdict that is not a difference. -/
def firstVerdict
    (compare : Text → Verdict) :
    List Text → Verdict
  | [] => .differs
  | glob :: rest =>
      match compare glob with
      | .differs => firstVerdict compare rest
      | verdict => verdict

/-- The globs that stand for the empty name as well. -/
def emptyGlobs : List Text :=
  ["".toList, "*".toList, "**".toList, "/**".toList, "**/".toList, "/**/".toList]

/-- Compare the rest of a glob with the end of a name. -/
def compareEnd :
    Nat → Text → Verdict
  | 0, _ =>
      .differs
  | fuel + 1, glob =>
      if emptyGlobs.contains glob then
        .fits
      else
        match glob with
        | '\x7b' :: rest =>
            match closeBrace? 0 rest with
            | none => .malformed
            | some (inside, after) =>
                firstVerdict (compareEnd fuel) ((alternatives 0 inside).map (· ++ after))
        | _ =>
            failed glob

/-- Run a comparison. -/
def compare :
    Nat → State → Verdict
  | 0, _ =>
      .differs
  | fuel + 1, state =>
      match state.name with
      | [] =>
          compareEnd (state.glob.length + 1) state.glob
      | character :: name =>
          match state.glob with
          | '\x7b' :: rest =>
              match closeBrace? 0 rest with
              | none => .malformed
              | some (inside, after) =>
                  firstVerdict (fun glob => compare fuel (state.splice glob))
                    ((alternatives 0 inside).map (· ++ after))
          | _ =>
              match state.step character name with
              | .ok next => compare fuel next
              | .error verdict => verdict

/--
More steps than a comparison can take: stars are tried again for every position of
the name, segment stars as well, and between two tries the glob is passed once.
-/
def stepBound
    (glob name : Text) :
    Nat :=
  let pairs := (glob.length + 2) * (name.length + 2)
  pairs * pairs * pairs

/-- Whether a glob describes a name; a malformed one describes nothing. -/
def describes
    (glob name : Text) :
    Bool :=
  compare (stepBound glob name) { glob, name } == .fits

end Glob

end ScriptUplift
