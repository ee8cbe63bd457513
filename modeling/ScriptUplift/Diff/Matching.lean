namespace ScriptUplift

/-!
# Matching two sequences

Two sequences are aligned by their longest common stretch, found first, and then
by the longest common stretches on either side of it.  In a long second sequence
items that occur very often do not start a stretch; they can only extend one.
-/

namespace Diff

/-- A common stretch of two sequences: where it starts in each, and its length. -/
structure Block where
  left : Nat
  right : Nat
  size : Nat
  deriving Repr, DecidableEq

/-- A part of each sequence: the half-open ranges of indexes. -/
structure Region where
  leftLow : Nat
  leftHigh : Nat
  rightLow : Nat
  rightHigh : Nat
  deriving Repr, DecidableEq

/-- Two sequences, with the places in the second at which an item may start a stretch. -/
structure Pairing (α : Type) where
  left : Array α
  right : Array α
  /-- For each item of the first sequence, its places in the second, in order. -/
  places : Array (List Nat)

/-- The places at which each item occurs, in order. -/
def occurrences
    [BEq α]
    (items : List α)
    (item : α) :
    List Nat :=
  items.zipIdx.filterMap fun pair => if pair.1 == item then some pair.2 else none

/-- Whether an item occurs too often in a long sequence to start a stretch. -/
def isPopular
    (length count : Nat) :
    Bool :=
  200 ≤ length && length / 100 + 1 < count

/-- Pair two sequences. -/
def Pairing.ofLists
    [BEq α]
    (left right : List α) :
    Pairing α where
  left := left.toArray
  right := right.toArray
  places := (left.map fun item =>
    let found := occurrences right item
    if isPopular right.length found.length then [] else found).toArray

/--
The lengths of the common stretches that end at given places, from those that
end one item earlier.  Both lists are in order of the place.
-/
def extendStretches
    (earlier : List (Nat × Nat)) :
    List Nat → List (Nat × Nat)
  | [] =>
      []
  | place :: rest =>
      let near := earlier.dropWhile fun stretch => stretch.1 + 1 < place
      let length :=
        match near with
        | (last, size) :: _ => if last + 1 = place then size + 1 else 1
        | [] => 1
      (place, length) :: extendStretches near rest

/-- The longer of a block and a stretch that ends at an item; the block wins a tie. -/
def longer
    (index : Nat)
    (best : Block)
    (stretch : Nat × Nat) :
    Block :=
  if best.size < stretch.2 then
    ⟨index + 1 - stretch.2, stretch.1 + 1 - stretch.2, stretch.2⟩
  else
    best

/-- Look for the longest stretch among a number of items from an index on. -/
def searchFrom
    (places : Array (List Nat))
    (region : Region) :
    Nat → Nat → List (Nat × Nat) → Block → Block
  | 0, _, _, best =>
      best
  | count + 1, index, earlier, best =>
      let here := ((places[index]?).getD []).filter fun place =>
        decide (region.rightLow ≤ place) && decide (place < region.rightHigh)
      let stretches := extendStretches earlier here
      searchFrom places region count (index + 1) stretches (stretches.foldl (longer index) best)

/-- Whether the items at two indexes exist and agree. -/
def agree
    [BEq α]
    (pairing : Pairing α)
    (left right : Nat) :
    Bool :=
  match pairing.left[left]?, pairing.right[right]? with
  | some first, some second => first == second
  | _, _ => false

/-- Extend a block to the left, by at most the given number of items. -/
def extendLeft
    [BEq α]
    (pairing : Pairing α)
    (region : Region) :
    Nat → Block → Block
  | 0, block =>
      block
  | steps + 1, block =>
      if region.leftLow < block.left && region.rightLow < block.right &&
          agree pairing (block.left - 1) (block.right - 1) then
        extendLeft pairing region steps ⟨block.left - 1, block.right - 1, block.size + 1⟩
      else
        block

/-- Extend a block to the right, by at most the given number of items. -/
def extendRight
    [BEq α]
    (pairing : Pairing α)
    (region : Region) :
    Nat → Block → Block
  | 0, block =>
      block
  | steps + 1, block =>
      if block.left + block.size < region.leftHigh &&
          block.right + block.size < region.rightHigh &&
          agree pairing (block.left + block.size) (block.right + block.size) then
        extendRight pairing region steps { block with size := block.size + 1 }
      else
        block

/-- The longest common stretch of a region. -/
def longestBlock
    [BEq α]
    (pairing : Pairing α)
    (region : Region) :
    Block :=
  let found :=
    searchFrom pairing.places region (region.leftHigh - region.leftLow) region.leftLow []
      ⟨region.leftLow, region.rightLow, 0⟩
  let length := region.leftHigh - region.leftLow
  extendRight pairing region length (extendLeft pairing region length found)

/-- The common stretches of a region, in order; the first argument bounds their number. -/
def blocksWithin
    [BEq α]
    (pairing : Pairing α) :
    Nat → Region → List Block
  | 0, _ =>
      []
  | limit + 1, region =>
      let block := longestBlock pairing region
      if block.size = 0 then
        []
      else
        let before : Region :=
          ⟨region.leftLow, block.left, region.rightLow, block.right⟩
        let after : Region :=
          ⟨block.left + block.size, region.leftHigh, block.right + block.size,
           region.rightHigh⟩
        (if before.leftLow < before.leftHigh && before.rightLow < before.rightHigh then
          blocksWithin pairing limit before
        else
          []) ++
          block ::
            (if after.leftLow < after.leftHigh && after.rightLow < after.rightHigh then
              blocksWithin pairing limit after
            else
              [])

/-- Join blocks that touch in both sequences. -/
def joinBlocks : List Block → List Block
  | first :: second :: rest =>
      if first.left + first.size = second.left ∧ first.right + first.size = second.right then
        joinBlocks (⟨first.left, first.right, first.size + second.size⟩ :: rest)
      else
        first :: joinBlocks (second :: rest)
  | blocks =>
      blocks
termination_by blocks => blocks.length

/-- The common stretches of two sequences, in order. -/
def matchingBlocks
    [BEq α]
    (left right : List α) :
    List Block :=
  let pairing := Pairing.ofLists left right
  joinBlocks
    (blocksWithin pairing (left.length + 1) ⟨0, left.length, 0, right.length⟩)

end Diff

end ScriptUplift
