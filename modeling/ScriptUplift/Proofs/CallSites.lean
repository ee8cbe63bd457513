import Mathlib.Data.List.Basic
import Mathlib.Tactic.Common
import ScriptUplift.Script.Call

namespace ScriptUplift

/-!
# Where calls stand

The words of a piece of code stand one after the other, and a call reaches from
its word over an opening bracket to the bracket that closes it.  So a call parts
the code into what is above it, the callee up to the bracket, the argument list,
the closing bracket and what follows.
-/

/-- Words that stand one after the other, inside of the given bounds. -/
structure Token.Spread
    (first stop : Nat)
    (tokens : List Token) :
    Prop where
  inside : ∀ token ∈ tokens, first ≤ token.start ∧ token.stop ≤ stop
  apart : tokens.Pairwise fun earlier later => earlier.stop ≤ later.start

theorem Token.Spread.cons
    {first stop : Nat}
    {token : Token}
    {rest : List Token}
    (bounded : first ≤ token.start ∧ token.start ≤ token.stop)
    (above : token.stop ≤ stop)
    (spread : Spread token.stop stop rest) :
    Spread first stop (token :: rest) where
  inside := by
    intro member isMember
    rcases List.mem_cons.mp isMember with rfl | later
    · exact ⟨bounded.1, above⟩
    · obtain ⟨low, high⟩ := spread.inside member later
      exact ⟨Nat.le_trans bounded.1 (Nat.le_trans bounded.2 low), high⟩
  apart := List.pairwise_cons.mpr ⟨fun member later => (spread.inside member later).1, spread.apart⟩

theorem Token.Spread.mono
    {first later stop : Nat}
    {tokens : List Token}
    (spread : Spread later stop tokens)
    (lower : first ≤ later) :
    Spread first stop tokens where
  inside := fun token member =>
    ⟨Nat.le_trans lower (spread.inside token member).1, (spread.inside token member).2⟩
  apart := spread.apart

theorem Token.Spread.tail
    {first stop : Nat}
    {token : Token}
    {rest : List Token}
    (spread : Spread first stop (token :: rest)) :
    Spread token.stop stop rest where
  inside := fun member later =>
    ⟨(List.pairwise_cons.mp spread.apart).1 member later,
      (spread.inside member (List.mem_cons_of_mem _ later)).2⟩
  apart := (List.pairwise_cons.mp spread.apart).2

theorem Token.Spread.filter
    {first stop : Nat}
    {tokens : List Token}
    (spread : Spread first stop tokens)
    (keep : Token → Bool) :
    Spread first stop (tokens.filter keep) where
  inside := fun token member => spread.inside token (List.mem_of_mem_filter member)
  apart := spread.apart.filter keep

/-- The runs of identifier characters stand one after the other. -/
theorem spread_wordRuns
    (position : Nat)
    (text : Text) :
    Token.Spread position (position + text.length) (wordRuns position text) := by
  induction text generalizing position with
  | nil =>
      exact ⟨by simp [wordRuns], List.Pairwise.nil⟩
  | cons character rest inductionHypothesis =>
      have later := inductionHypothesis (position + 1)
      have sameStop : position + 1 + rest.length = position + (character :: rest).length := by
        rw [List.length_cons]
        omega
      rw [sameStop] at later
      have single :
          Token.Spread position (position + (character :: rest).length)
            (⟨[character], position⟩ :: wordRuns (position + 1) rest) :=
        .cons ⟨Nat.le_refl _, Nat.le_succ _⟩ (by simp [Token.stop]) later
      unfold wordRuns
      dsimp only
      split
      · split
        · rename_i next others runs
          split
          · rename_i adjacent
            rw [runs] at later
            -- The character joins the run that begins right after it.
            have sameEnd : Token.stop ⟨character :: next.text, position⟩ = next.stop := by
              simp only [Token.stop, List.length_cons, adjacent]
              omega
            have nextInside := (later.inside next List.mem_cons_self).2
            refine .cons ⟨Nat.le_refl _, Nat.le_add_right _ _⟩ (sameEnd ▸ nextInside) ?_
            rw [sameEnd]
            exact later.tail
          · exact single
        · rename_i runs
          rw [runs] at single
          exact single
      · exact later.mono (Nat.le_succ _)

/-- The identifiers of code stand in it one after the other. -/
theorem spread_identifiers
    (code : Text) :
    Token.Spread 0 code.length (identifiers code) := by
  have runs := spread_wordRuns 0 (maskStrings code)
  rw [Nat.zero_add, maskStrings, length_maskStringsFrom] at runs
  exact runs.filter _

/-- A closing bracket is found in the text. -/
theorem lt_length_of_closingIndexFrom
    {depth : Int}
    {text : Text}
    {index : Nat}
    (found : closingIndexFrom depth text = some index) :
    index < text.length := by
  induction text generalizing depth index with
  | nil =>
      simp [closingIndexFrom] at found
  | cons character rest inductionHypothesis =>
      unfold closingIndexFrom at found
      split at found
      · obtain ⟨inner, below, rfl⟩ := Option.map_eq_some_iff.mp found
        exact Nat.succ_lt_succ (inductionHypothesis below)
      · split at found
        · split at found
          · rw [← Option.some.inj found]
            exact Nat.succ_pos _
          · obtain ⟨inner, below, rfl⟩ := Option.map_eq_some_iff.mp found
            exact Nat.succ_lt_succ (inductionHypothesis below)
        · obtain ⟨inner, below, rfl⟩ := Option.map_eq_some_iff.mp found
          exact Nat.succ_lt_succ (inductionHypothesis below)

/-- The bracket that closes an opening one stands after it. -/
theorem closingIndex_bounds
    {code : Text}
    {openAt closeAt : Nat}
    (opening : (code.drop openAt).head? = some '(')
    (found : closingIndex code openAt = some closeAt) :
    openAt < closeAt ∧ closeAt < code.length := by
  obtain ⟨index, below, rfl⟩ := Option.map_eq_some_iff.mp found
  obtain ⟨rest, split⟩ := List.head?_eq_some_iff.mp opening
  have lengths := congrArg List.length split
  rw [List.length_drop, List.length_cons] at lengths
  rw [split] at below
  have masked : maskStrings ('(' :: rest) = '(' :: maskStrings rest := by
    rfl
  rw [masked, closingIndexFrom, if_pos (by decide)] at below
  obtain ⟨inner, insideRest, rfl⟩ := Option.map_eq_some_iff.mp below
  have inBounds := lt_length_of_closingIndexFrom insideRest
  rw [maskStrings, length_maskStringsFrom] at inBounds
  omega

namespace Call

/-- What holds of the positions of a call. -/
structure Placed
    (call : Call)
    (code : Text) :
    Prop where
  bracket : call.start + call.name.length ≤ call.openAt
  closing : call.openAt < call.closeAt
  inside : call.closeAt < code.length

/-- A call takes over the word it was found at, and closes a bracket behind it. -/
theorem placed_of_ofToken?
    {code : Text}
    {token : Token}
    {call : Call}
    (found : ofToken? code token = some call) :
    call.name = token.text ∧ call.start = token.start ∧ call.Placed code := by
  unfold ofToken? at found
  dsimp only at found
  split at found
  · rename_i opening
    obtain ⟨closeAt, closes, rfl⟩ := Option.map_eq_some_iff.mp found
    obtain ⟨after, within⟩ := closingIndex_bounds opening closes
    exact ⟨rfl, rfl, Nat.le_add_right _ _, after, within⟩
  · cases found

/-- Every call that is found satisfies the condition and stands in the code. -/
theorem placed_of_mem_findAll
    {callee? : Text → Bool}
    {code : Text}
    {call : Call}
    (member : call ∈ findAll callee? code) :
    callee? call.name = true ∧ call.Placed code := by
  obtain ⟨token, isToken, found⟩ := List.mem_filterMap.mp member
  obtain ⟨sameName, _, placed⟩ := placed_of_ofToken? found
  rw [sameName]
  exact ⟨(List.mem_filter.mp isToken).2, placed⟩

/-- The callees of code stand one after the other. -/
theorem pairwise_findAll
    (callee? : Text → Bool)
    (code : Text) :
    (findAll callee? code).Pairwise fun earlier later =>
      earlier.start + earlier.name.length ≤ later.start := by
  have apart := ((spread_identifiers code).filter (callee? ·.text)).apart
  refine List.Pairwise.filterMap (ofToken? code) ?_ apart
  intro earlier later ordered first firstFound second secondFound
  obtain ⟨firstName, firstStart, _⟩ := placed_of_ofToken? firstFound
  obtain ⟨_, secondStart, _⟩ := placed_of_ofToken? secondFound
  rw [firstName, firstStart, secondStart]
  exact ordered

/-- A call parts its code around its argument list. -/
theorem Placed.exists_parts
    {call : Call}
    {code : Text}
    (placed : call.Placed code) :
    ∃ callee closing : Text,
      code = code.take call.start ++
          (callee ++ (call.inner code ++ (closing ++ code.drop (call.closeAt + 1)))) ∧
        call.name.length + 1 ≤ callee.length ∧
        closing.length = 1 := by
  obtain ⟨bracket, after, within⟩ := placed
  refine ⟨(code.take (call.openAt + 1)).drop call.start,
    (code.take (call.closeAt + 1)).drop call.closeAt, ?_, ?_, ?_⟩
  · have split {early late : Nat} (ordered : early ≤ late) :
        (code.take late).drop early ++ code.drop late = code.drop early := by
      have later : code.drop late = (code.drop early).drop (late - early) := by
        rw [List.drop_drop, Nat.add_sub_cancel' ordered]
      rw [List.drop_take, later, List.take_append_drop]
    rw [split (Nat.le_succ call.closeAt), inner, split (by omega), split (by omega),
      List.take_append_drop]
  · rw [List.length_drop, List.length_take]
    omega
  · rw [List.length_drop, List.length_take]
    omega

end Call

end ScriptUplift
