import ScriptUplift.Text.Basic

namespace ScriptUplift

/-!
# Patterns

A pattern describes pieces of a text.  Its meaning is the set of positions at
which a piece that starts at a given position can end.  Sets of positions are
lists without repetitions, so matching takes polynomial time whatever the pattern.
-/

/-- A set of characters, by code points. -/
inductive CharSet
  | nothing
  | range (low high : Nat)
  | union (first second : CharSet)
  | outside (set : CharSet)
  deriving Repr, DecidableEq

namespace CharSet

/-- Whether a set holds a character. -/
def contains : CharSet → Char → Bool
  | .nothing, _ =>
      false
  | .range low high, character =>
      low ≤ character.toNat && character.toNat ≤ high
  | .union first second, character =>
      first.contains character || second.contains character
  | .outside set, character =>
      !set.contains character

/-- The set of one character. -/
def single
    (character : Char) :
    CharSet :=
  .range character.toNat character.toNat

/-- The characters of any of the given ranges. -/
def ofRanges
    (ranges : List (Nat × Nat)) :
    CharSet :=
  ranges.foldr (fun range rest => .union (.range range.1 range.2) rest) .nothing

/-- A set or the characters outside it. -/
def negatedIf
    (negated : Bool)
    (set : CharSet) :
    CharSet :=
  if negated then .outside set else set

end CharSet

/-- A description of pieces of a text. -/
inductive Pattern
  | empty
  | one (set : CharSet)
  /-- The start of the text. -/
  | start
  /-- The end of the text. -/
  | finish
  /-- A place between a word character and another one, or every other place. -/
  | boundary (inside : Bool)
  | append (first second : Pattern)
  | either (first second : Pattern)
  /-- A number of repetitions from `least` to `most`, or without a bound. -/
  | repeated (body : Pattern) (least : Nat) (most : Option Nat)
  deriving Repr, DecidableEq

namespace Pattern

/-- One given character. -/
def literal
    (character : Char) :
    Pattern :=
  .one (.single character)

/-- Patterns one after another. -/
def sequence
    (patterns : List Pattern) :
    Pattern :=
  patterns.foldr .append .empty

/-- Whether a word character stands at a position. -/
def isWordAt
    (text : Text)
    (position : Nat) :
    Bool :=
  (text[position]?).any isPatternWord

/-- Whether exactly one of the two characters around a position is a word character. -/
def isBoundary
    (text : Text)
    (position : Nat) :
    Bool :=
  (0 < position && isWordAt text (position - 1)) != isWordAt text position

/-- Apply a step a number of times. -/
def rounds
    (step : List Nat → List Nat) :
    Nat → List Nat → List Nat
  | 0, positions =>
      positions
  | count + 1, positions =>
      rounds step count (step positions)

/-- The positions that at most the given number of steps reach. -/
def reach
    (step : List Nat → List Nat) :
    Nat → List Nat → List Nat
  | 0, positions =>
      positions
  | count + 1, positions =>
      reach step count (positions ++ step positions).eraseDups

/--
The positions at which a piece that starts at a position can end.  Repetitions
that do not move are of no use, so the length of the text bounds their number.
-/
def ends
    (text : Text) :
    Pattern → Nat → List Nat
  | .empty, position =>
      [position]
  | .one set, position =>
      if (text[position]?).any set.contains then [position + 1] else []
  | .start, position =>
      if position = 0 then [position] else []
  | .finish, position =>
      if position = text.length then [position] else []
  | .boundary inside, position =>
      if isBoundary text position = inside then [] else [position]
  | .append first second, position =>
      ((ends text first position).flatMap (ends text second)).eraseDups
  | .either first second, position =>
      (ends text first position ++ ends text second position).eraseDups
  | .repeated body least most, position =>
      let step := fun positions => (positions.flatMap (ends text body)).eraseDups
      reach step (most.elim text.length (· - least)) (rounds step least [position])

/-- Whether a piece of a text fits a pattern. -/
def occursIn
    (pattern : Pattern)
    (text : Text) :
    Bool :=
  (List.range (text.length + 1)).any fun position =>
    !(ends text pattern position).isEmpty

/-- Whether the numbers of nested repetitions stay within a bound when multiplied. -/
def repeatsAtMost
    (bound : Nat) :
    Pattern → Bool
  | .append first second =>
      first.repeatsAtMost bound && second.repeatsAtMost bound
  | .either first second =>
      first.repeatsAtMost bound && second.repeatsAtMost bound
  | .repeated body least most =>
      let count := most.getD least
      if most = some 0 then true
      else if bound < count then false
      else body.repeatsAtMost (if count = 0 then bound else bound / count)
  | _ =>
      true

end Pattern

end ScriptUplift
