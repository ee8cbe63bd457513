namespace ScriptUplift

/-!
# Sorting by path

The lists of a summary are sorted in place by swapping items.  A short range is
sorted by insertion, a longer one is parted around a pivot; a range that looks
sorted or turned around is tried first, one that holds an item many times is parted
by that item, and one whose pivots keep being bad is sorted as a heap.  The sort is
not stable: items with the same path may end up in either order.
-/

/-- Items in an order of their own. -/
structure Arrangement {α : Type} (items : List α) where
  array : Array α
  perm : array.toList.Perm items

namespace Arrangement

variable {α : Type} {items : List α}

/-- The order in which items were given. -/
def given
    (items : List α) :
    Arrangement items where
  array := items.toArray
  perm := .refl items

/-- Swap the items at two positions, if there are any. -/
def swap
    (arranged : Arrangement items)
    (first second : Nat) :
    Arrangement items :=
  if inside : first < arranged.array.size ∧ second < arranged.array.size then
    { array := arranged.array.swap first second inside.1 inside.2
      perm := (Array.swap_perm inside.1 inside.2).toList.trans arranged.perm }
  else
    arranged

variable (path : α → String)

/-- Whether the item at a position belongs before the one at another position. -/
def less
    (arranged : Arrangement items)
    (first second : Nat) :
    Bool :=
  match arranged.array[first]?, arranged.array[second]? with
  | some one, some other => path one < path other
  | _, _ => false

/-! ## Short ranges -/

/-- Move an item to the left, down to a position, as long as it belongs before its neighbour. -/
def moveLeft
    (lowest : Nat) :
    Nat → Arrangement items → Arrangement items
  | 0, arranged =>
      arranged
  | position + 1, arranged =>
      if lowest ≤ position ∧ arranged.less path (position + 1) position then
        moveLeft lowest position (arranged.swap (position + 1) position)
      else
        arranged

/-- Move an item to the right by some steps, as long as its neighbour belongs before it. -/
def moveRight : Nat → Nat → Arrangement items → Arrangement items
  | 0, _, arranged =>
      arranged
  | steps + 1, position, arranged =>
      if arranged.less path position (position - 1) then
        moveRight steps (position + 1) (arranged.swap position (position - 1))
      else
        arranged

/-- Sort a range by insertion. -/
def insertionSort
    (start stop : Nat)
    (arranged : Arrangement items) :
    Arrangement items :=
  (List.range' (start + 1) (stop - (start + 1))).foldl
    (fun arranged position => arranged.moveLeft path start position) arranged

/-- The first position, from a given one on, at which a scan to the right stops. -/
def scanRight
    (goesOn : Nat → Bool) :
    Nat → Nat → Nat
  | 0, position =>
      position
  | steps + 1, position =>
      if goesOn position then scanRight goesOn steps (position + 1) else position

/-- The first position, from a given one on, at which a scan to the left stops. -/
def scanLeft
    (goesOn : Nat → Bool) :
    Nat → Nat → Nat
  | 0, position =>
      position
  | steps + 1, position =>
      if goesOn position then scanLeft goesOn steps (position - 1) else position

/-- The length from which on a range is mended where few neighbours are out of order. -/
def mendedLength : Nat :=
  50

/-- Sort a range that is nearly sorted, by moving a few items; tells whether that was enough. -/
def partialInsertionSort
    (start stop : Nat) :
    Nat → Nat → Arrangement items → Arrangement items × Bool
  | 0, _, arranged =>
      (arranged, false)
  | steps + 1, position, arranged =>
      let found :=
        scanRight (fun next => !arranged.less path next (next - 1)) (stop - position) position
      if found = stop then
        (arranged, true)
      else if stop - start < mendedLength then
        (arranged, false)
      else
        let swapped := arranged.swap found (found - 1)
        let left := if 2 ≤ found - start then swapped.moveLeft path 0 (found - 1) else swapped
        let right :=
          if 2 ≤ stop - found then left.moveRight path (stop - (found + 1)) (found + 1) else left
        partialInsertionSort start stop steps found right

/-! ## Heaps -/

/-- Move an item of a heap down below greater ones. -/
def siftDown
    (first size : Nat) :
    Nat → Nat → Arrangement items → Arrangement items
  | 0, _, arranged =>
      arranged
  | steps + 1, root, arranged =>
      let left := 2 * root + 1
      if size ≤ left then
        arranged
      else
        let child :=
          if left + 1 < size ∧ arranged.less path (first + left) (first + left + 1) then left + 1
          else left
        if arranged.less path (first + root) (first + child) then
          siftDown first size steps child (arranged.swap (first + root) (first + child))
        else
          arranged

/-- Sort a range as a heap with the greatest item on top. -/
def heapSort
    (start stop : Nat)
    (arranged : Arrangement items) :
    Arrangement items :=
  let size := stop - start
  let heap :=
    (List.range ((size - 1) / 2 + 1)).foldr
      (fun root arranged => arranged.siftDown path start size size root) arranged
  (List.range size).foldr
    (fun last arranged => (arranged.swap start (start + last)).siftDown path start last size 0) heap

/-! ## Pivots -/

/-- Two positions in the order of their items, with the number of swaps that this took. -/
def orderTwo
    (arranged : Arrangement items)
    (first second swaps : Nat) :
    Nat × Nat × Nat :=
  if arranged.less path second first then (second, first, swaps + 1) else (first, second, swaps)

/-- The position of the middle one of three items, with the number of swaps that this took. -/
def median
    (arranged : Arrangement items)
    (first second third swaps : Nat) :
    Nat × Nat :=
  let (first, second, swaps) := arranged.orderTwo path first second swaps
  let (second, _, swaps) := arranged.orderTwo path second third swaps
  let (_, second, swaps) := arranged.orderTwo path first second swaps
  (second, swaps)

/-- The middle one of an item and its neighbours. -/
def medianAround
    (arranged : Arrangement items)
    (position swaps : Nat) :
    Nat × Nat :=
  arranged.median path (position - 1) position (position + 1) swaps

/-- What the search for a pivot tells about a range. -/
inductive Hint
  | unknown
  | increasing
  | decreasing
  deriving Repr, DecidableEq

/-- The number of swaps after which a search for a pivot has met items in falling order only. -/
def fallingSwaps : Nat :=
  12

/-- What a number of swaps tells about a range. -/
def Hint.ofSwaps
    (swaps : Nat) :
    Hint :=
  if swaps = 0 then .increasing
  else if swaps = fallingSwaps then .decreasing
  else .unknown

/-- The pivot of a range: the middle one of three items, each the middle of three in a long range. -/
def choosePivot
    (start stop : Nat)
    (arranged : Arrangement items) :
    Nat × Hint :=
  let quarter := (stop - start) / 4
  let first := start + quarter
  let second := start + quarter * 2
  let third := start + quarter * 3
  if stop - start < mendedLength then
    let (pivot, swaps) := arranged.median path first second third 0
    (pivot, .ofSwaps swaps)
  else
    let (first, swaps) := arranged.medianAround path first 0
    let (second, swaps) := arranged.medianAround path second swaps
    let (third, swaps) := arranged.medianAround path third swaps
    let (pivot, swaps) := arranged.median path first second third swaps
    (pivot, .ofSwaps swaps)

/-- Turn a range around. -/
def reverseRange
    (start stop : Nat)
    (arranged : Arrangement items) :
    Arrangement items :=
  (List.range ((stop - start) / 2)).foldl
    (fun arranged offset => arranged.swap (start + offset) (stop - 1 - offset)) arranged

/-! ## Parting a range -/

/-- Swap items that are on the wrong side, from both ends; ends with where the scans met. -/
def exchange
    (belongsLeft belongsRight : Arrangement items → Nat → Bool) :
    Nat → Nat → Nat → Arrangement items → Arrangement items × Nat × Nat
  | 0, left, right, arranged =>
      (arranged, left, right)
  | steps + 1, left, right, arranged =>
      let left := scanRight (belongsLeft arranged) (right + 1 - left) left
      let right := scanLeft (belongsRight arranged) (right + 1 - left) right
      if right < left then
        (arranged, left, right)
      else
        exchange belongsLeft belongsRight steps (left + 1) (right - 1) (arranged.swap left right)

/-- Part a range around a pivot; tells where the pivot ends up and whether it was parted before. -/
def partRange
    (start stop pivot : Nat)
    (arranged : Arrangement items) :
    Arrangement items × Nat × Bool :=
  let ready := arranged.swap start pivot
  let lesser := fun (arranged : Arrangement items) position => arranged.less path position start
  let others := fun (arranged : Arrangement items) position => !arranged.less path position start
  let left := scanRight (lesser ready) (stop - (start + 1)) (start + 1)
  let right := scanLeft (others ready) (stop - left) (stop - 1)
  let (parted, _, middle) := exchange lesser others (stop - start) (start + 1) (stop - 1) ready
  (parted.swap middle start, middle, decide (right < left))

/-- Part a range whose least item is the pivot from the items that are greater. -/
def partEqual
    (start stop pivot : Nat)
    (arranged : Arrangement items) :
    Arrangement items × Nat :=
  let (parted, left, _) :=
    exchange (fun arranged position => !arranged.less path start position)
      (fun arranged position => arranged.less path start position)
      (stop - start) (start + 1) (stop - 1) (arranged.swap start pivot)
  (parted, left)

/-- The next number of a generator that is good enough to scatter items. -/
def nextRandom
    (number : UInt64) :
    UInt64 :=
  let first := number ^^^ (number <<< 13)
  let second := first ^^^ (first >>> 7)
  second ^^^ (second <<< 17)

/-- The number of binary digits of a number. -/
def digitCount
    (number : Nat) :
    Nat :=
  if number = 0 then 0 else number.log2 + 1

/-- Scatter three items in the middle of a range, to break a pattern that makes for bad pivots. -/
def breakPatterns
    (start stop : Nat)
    (arranged : Arrangement items) :
    Arrangement items :=
  let length := stop - start
  let middle := start + length / 4 * 2 - 1
  let step := fun (current : Arrangement items × UInt64) (offset : Nat) =>
    let number := nextRandom current.2
    let drawn := number.toNat % (1 <<< digitCount length)
    let other := if length ≤ drawn then drawn - length else drawn
    (current.1.swap (middle - 1 + offset) (start + other), number)
  ((List.range 3).foldl step (arranged, UInt64.ofNat length)).1

/-- The length up to which a range is sorted by insertion. -/
def shortLength : Nat :=
  12

/-- The number of neighbours out of order that are mended before a range is parted. -/
def mendedPairs : Nat :=
  5

/--
Sort a range.  Every turn parts it or ends, so that as many turns as there are
items are enough; `limit` counts the bad pivots that are still put up with.
-/
def sortRange : Nat → Nat → Nat → Nat → Bool → Bool → Arrangement items → Arrangement items
  | 0, _, _, _, _, _, arranged =>
      arranged
  | turns + 1, start, stop, limit, balanced, parted, arranged =>
      if stop - start ≤ shortLength then
        arranged.insertionSort path start stop
      else if limit = 0 then
        arranged.heapSort path start stop
      else
        let scattered := if balanced then arranged else arranged.breakPatterns start stop
        let limit := if balanced then limit else limit - 1
        let (chosen, hint) := scattered.choosePivot path start stop
        let falling := hint = .decreasing
        let turned := if falling then scattered.reverseRange start stop else scattered
        let pivot := if falling then stop - 1 - (chosen - start) else chosen
        let (mended, sorted) :=
          if balanced ∧ parted ∧ hint ≠ .unknown then
            turned.partialInsertionSort path start stop mendedPairs (start + 1)
          else
            (turned, false)
        if sorted then
          mended
        else if 0 < start ∧ !mended.less path (start - 1) pivot then
          let (cut, middle) := mended.partEqual path start stop pivot
          sortRange turns middle stop limit balanced parted cut
        else
          let (cut, middle, before) := mended.partRange path start stop pivot
          let leftLength := middle - start
          let rightLength := stop - middle
          if leftLength < rightLength then
            sortRange turns (middle + 1) stop limit (decide ((stop - start) / 8 ≤ leftLength)) before
              (sortRange turns start middle limit true true cut)
          else
            sortRange turns start middle limit (decide ((stop - start) / 8 ≤ rightLength)) before
              (sortRange turns (middle + 1) stop limit true true cut)

end Arrangement

/-- Put an item before the first one that does not belong before it. -/
def insertByPath
    {α : Type}
    (path : α → String)
    (item : α) :
    List α → List α
  | [] =>
      [item]
  | first :: rest =>
      if path item ≤ path first then item :: first :: rest
      else first :: insertByPath path item rest

/-- Items by path; those with the same path in no particular order. -/
def sortByPath
    {α : Type}
    (path : α → String)
    (items : List α) :
    List α :=
  let arranged := Arrangement.sortRange path items.length 0 items.length
    (Arrangement.digitCount items.length) true true (.given items)
  -- Inserting item by item leaves what is sorted as it is.
  arranged.array.toList.foldr (insertByPath path) []

section

variable {α : Type} (path : α → String)

theorem insertByPath_perm
    (item : α)
    (items : List α) :
    (insertByPath path item items).Perm (item :: items) := by
  induction items with
  | nil =>
      exact .refl _
  | cons first rest inductionHypothesis =>
      unfold insertByPath
      split
      · exact .refl _
      · exact (inductionHypothesis.cons first).trans (.swap item first rest)

theorem pairwise_insertByPath
    (item : α)
    {items : List α}
    (sorted : items.Pairwise (path · ≤ path ·)) :
    (insertByPath path item items).Pairwise (path · ≤ path ·) := by
  induction items with
  | nil =>
      exact List.pairwise_singleton _ _
  | cons first rest inductionHypothesis =>
      obtain ⟨least, restSorted⟩ := List.pairwise_cons.mp sorted
      unfold insertByPath
      split
      · rename_i before
        refine List.pairwise_cons.mpr ⟨fun other member => ?_, sorted⟩
        rcases List.mem_cons.mp member with rfl | inRest
        · exact before
        · exact String.le_trans before (least other inRest)
      · rename_i notBefore
        refine List.pairwise_cons.mpr ⟨fun other member => ?_, inductionHypothesis restSorted⟩
        rcases List.mem_cons.mp ((insertByPath_perm path item rest).mem_iff.mp member) with
          rfl | inRest
        · exact (String.le_total _ _).resolve_left notBefore
        · exact least other inRest

variable (items : List α)

theorem sortByPath_perm :
    (sortByPath path items).Perm items := by
  have inserted (others : List α) : (others.foldr (insertByPath path) []).Perm others := by
    induction others with
    | nil =>
        exact .refl _
    | cons first rest inductionHypothesis =>
        exact (insertByPath_perm path first _).trans (inductionHypothesis.cons first)
  exact (inserted _).trans (Arrangement.perm _)

@[simp] theorem mem_sortByPath
    {item : α} :
    item ∈ sortByPath path items ↔ item ∈ items :=
  (sortByPath_perm path items).mem_iff

theorem pairwise_sortByPath :
    (sortByPath path items).Pairwise (path · ≤ path ·) := by
  unfold sortByPath
  dsimp only
  induction (Arrangement.sortRange path items.length 0 items.length
    (Arrangement.digitCount items.length) true true (.given items)).array.toList with
  | nil =>
      exact List.Pairwise.nil
  | cons first rest inductionHypothesis =>
      exact pairwise_insertByPath path first inductionHypothesis

end

end ScriptUplift
