import Mathlib.Data.List.Basic
import Mathlib.Tactic.Common
import ScriptUplift.Proofs.CallPieces
import ScriptUplift.Proofs.Replacement

namespace ScriptUplift

/-!
# Code in which no call can be replaced any more

Replacing goes from the first call for which a replacement can be built to the
next.  What is put in the place of a call is an operand again, so that the calls
in front of it are as they were, up to one argument that changed.  The builders
are steadfast: an argument that holds a replacement does not make a call
replaceable.  So when replacing stops before its limit, nothing is left to
replace.
-/

theorem pairwise_wordStarts
    (quoting : Quoting)
    (inWord : Bool)
    (text : Text) :
    (wordStarts quoting inWord text).Pairwise fun first second =>
      second.length < first.length := by
  induction text generalizing quoting inWord with
  | nil =>
      exact .nil
  | cons character rest inductionHypothesis =>
      unfold wordStarts
      dsimp only
      split
      · refine List.pairwise_cons.mpr ⟨?_, inductionHypothesis _ _⟩
        intro start member
        exact Nat.lt_succ_of_le (length_le_of_mem_wordStarts member)
      · exact inductionHypothesis _ _

theorem siteAt_start
    {callee start : Text}
    {site : CallSite}
    (found : siteAt callee start = some site) :
    site.start = start := by
  obtain ⟨read, _, rfl⟩ := Option.map_eq_some_iff.mp found
  rfl

/-- The calls in a piece of code start one after the other. -/
theorem pairwise_callSites
    (callee code : Text) :
    (callSites callee code).Pairwise fun first second =>
      second.start.length < first.start.length := by
  refine List.Pairwise.filterMap _ ?_ (pairwise_wordStarts .outside false code)
  intro first second ordered firstSite firstFound secondSite secondFound
  rw [siteAt_start firstFound, siteAt_start secondFound]
  exact ordered

/-- A word starts behind a text that ends apart. -/
theorem exists_above_of_mem_wordStarts
    {quoting : Quoting}
    {inWord : Bool}
    {text start : Text}
    (member : start ∈ wordStarts quoting inWord text) :
    ∃ above, text = above ++ start ∧ EndsApart quoting inWord above := by
  induction text generalizing quoting inWord with
  | nil =>
      cases member
  | cons character rest inductionHypothesis =>
      unfold wordStarts at member
      dsimp only at member
      have fromBelow (below : start ∈ wordStarts (quoting.step character)
          (quoting.isWordChar character) rest) :
          ∃ above, character :: rest = above ++ start ∧ EndsApart quoting inWord above := by
        obtain ⟨above, shape, apart⟩ := inductionHypothesis below
        exact ⟨character :: above, congrArg (character :: ·) shape, apart.outside, apart.noWord⟩
      split at member
      · rename_i starts
        rw [Bool.and_eq_true, Bool.not_eq_true'] at starts
        rcases List.mem_cons.mp member with rfl | below
        · exact ⟨[], rfl, (Quoting.step_of_isWordChar starts.1).1, starts.2⟩
        · exact fromBelow below
      · exact fromBelow member

/-- The calls that start in a text, with another text below it. -/
def sitesAbove
    (callee above below : Text) :
    List CallSite :=
  (wordStarts .outside false above).filterMap fun start => siteAt callee (start ++ below)

/-- The calls of joined code start in the one or the other part. -/
theorem callSites_append
    (callee : Text)
    {above : Text}
    (apart : EndsApart .outside false above)
    (below : Text) :
    callSites callee (above ++ below) = sitesAbove callee above below ++ callSites callee below := by
  unfold callSites sitesAbove
  rw [wordStarts_append, apart.outside, apart.noWord, List.filterMap_append, List.filterMap_map]
  rfl

/-- The calls above an operand stay calls, one by one, with any other operand in its place. -/
theorem sitesAbove_swapped
    (callee : Text)
    {above : Text}
    (apart : EndsApart .outside false above)
    {old new : Text}
    (oldOperand : Operand old)
    (newOperand : Operand new)
    (below : Text) :
    List.Forall₂
      (fun first second : CallSite =>
        List.Forall₂ (ArgumentSwapped old new) first.arguments second.arguments)
      (sitesAbove callee above (old ++ below)) (sitesAbove callee above (new ++ below)) := by
  have each (starts : List Text) (among : starts ⊆ wordStarts .outside false above) :
      List.Forall₂
        (fun first second : CallSite =>
          List.Forall₂ (ArgumentSwapped old new) first.arguments second.arguments)
        (starts.filterMap fun start => siteAt callee (start ++ (old ++ below)))
        (starts.filterMap fun start => siteAt callee (start ++ (new ++ below))) := by
    induction starts with
    | nil =>
        exact .nil
    | cons start rest inductionHypothesis =>
        obtain ⟨startApart, ends⟩ := endsApart_of_mem_wordStarts apart (among List.mem_cons_self)
        have restSwapped := inductionHypothesis (List.subset_of_cons_subset among)
        have swapped := siteAt_swapped callee startApart ends oldOperand newOperand below
        rw [List.filterMap_cons, List.filterMap_cons]
        revert swapped
        generalize siteAt callee (start ++ (old ++ below)) = first
        generalize siteAt callee (start ++ (new ++ below)) = second
        intro swapped
        cases swapped with
        | noCall =>
            exact restSwapped
        | call arguments =>
            exact .cons arguments restSwapped
  exact each _ (List.Subset.refl _)

/-- The text of a call: its callee, a gap, and its pieces in brackets. -/
structure CallText
    (callee : Text)
    (pieces : List Text)
    (text : Text) :
    Prop where
  closed : ∀ piece ∈ pieces, IsClosed piece
  shape : ∃ (gap : Text) (closing : Char),
    gap.all (· == ' ') = true ∧ isClosingBracket closing = true ∧
      text = callee ++ (gap ++ '(' :: (Text.joinWith [','] pieces ++ [closing]))

/-- A call that is read stands there with its callee, its pieces and its brackets. -/
theorem exists_callText_of_siteAt
    {callee start : Text}
    {site : CallSite}
    (found : siteAt callee start = some site) :
    ∃ pieces text, CallText callee pieces text ∧ start = text ++ site.rest ∧
      site.arguments = argumentsOf pieces ∧ callee.all isIdentifierChar = true := by
  obtain ⟨⟨pieces, rest⟩, called, rfl⟩ := Option.map_eq_some_iff.mp found
  unfold callAt at called
  split at called
  · rename_i isCallee
    have behind : start.drop callee.length = start.dropWhile isIdentifierChar := by
      rw [← isCallee]
      exact drop_length_takeWhile _ _
    rw [behind] at called
    unfold listAt at called
    split at called
    · rename_i body opens
      obtain ⟨first, others, rfl, read⟩ := listRead_of_readPieces called
      obtain ⟨closing, closes, shape⟩ := read.shape
      refine ⟨first :: others,
        callee ++ ((start.dropWhile isIdentifierChar).takeWhile (· == ' ') ++
          '(' :: (Text.joinWith [','] (first :: others) ++ [closing])),
        ⟨?_, _, closing, ?_, closes, rfl⟩, ?_, rfl, ?_⟩
      · exact List.forall_mem_cons.mpr ⟨read.firstWalk, read.othersClosed⟩
      · exact List.all_takeWhile
      · calc
          start
            = start.takeWhile isIdentifierChar ++
                ((start.dropWhile isIdentifierChar).takeWhile (· == ' ') ++
                  (start.dropWhile isIdentifierChar).dropWhile (· == ' ')) := by
              rw [List.takeWhile_append_dropWhile, List.takeWhile_append_dropWhile]
          _ = _ := by
              rw [isCallee, opens, shape]
              simp
      · rw [← isCallee, List.all_eq_true]
        exact fun _ member => List.mem_takeWhile_imp member
    · cases called
  · cases called

/-- A call is an operand. -/
theorem CallText.operand
    {callee : Text}
    (named : callee.head?.any isIdentifierChar = true)
    (word : callee.all isIdentifierChar = true)
    {pieces : List Text}
    {text : Text}
    (called : CallText callee pieces text) :
    Operand text := by
  obtain ⟨closed, gap, closing, spaces, closes, rfl⟩ := called
  constructor
  · have calleeClosed : IsClosed callee := by
      apply isClosed_of_plain
      rw [List.all_eq_true] at word ⊢
      exact fun character member => isPlainChar_of_isIdentifierChar (word character member)
    have gapClosed : IsClosed gap := by
      have noMark : codeMarks.any (· == ' ') = false := by
        decide
      apply isClosed_of_plain
      rw [List.all_eq_true] at spaces ⊢
      exact fun character member => isPlainChar_of_class noMark (spaces character member)
    exact calleeClosed.append (gapClosed.append
      (isClosed_of_bracketed (by decide) closes (walk_joinWith rfl closed)))
  · cases callee with
    | nil =>
        cases named
    | cons first rest =>
        exact named
  · have bracket : isBlankChar '(' = false := by
      decide
    exact Text.isBlank_eq_false_of_mem (by simp) bracket

/-- A name that code can call. -/
structure CalleeName
    (callee : Text) :
    Prop where
  headed : callee.head?.any isIdentifierChar = true
  notNumber : callee.head?.any isDigitChar = false
  word : callee.all isIdentifierChar = true

/-- A call in code parts it into what is above, the call and what is below. -/
theorem exists_parts_of_mem_callSites
    {callee : Text}
    (name : CalleeName callee)
    {code : Text}
    {site : CallSite}
    (member : site ∈ callSites callee code) :
    ∃ above text, code = above ++ (text ++ site.rest) ∧ site.start = text ++ site.rest ∧
      EndsApart .outside false above ∧ Operand text ∧
      ∃ pieces, CallText callee pieces text ∧ site.arguments = argumentsOf pieces := by
  obtain ⟨start, isStart, found⟩ := List.mem_filterMap.mp member
  obtain ⟨above, rfl, apart⟩ := exists_above_of_mem_wordStarts isStart
  obtain ⟨pieces, text, called, rfl, arguments, _⟩ := exists_callText_of_siteAt found
  exact ⟨above, text, rfl, siteAt_start found, apart, called.operand name.headed name.word, pieces,
    called, arguments⟩

/-- What replacing one call makes of its code. -/
def CallSite.replaceIn
    (site : CallSite)
    (code text : Text) :
    Text :=
  code.take (code.length - site.start.length) ++ text ++ site.rest

theorem Call.replaceIn_toSite
    (call : Call)
    (code text : Text) :
    (call.toSite code).replaceIn code text =
      code.take call.start ++ text ++ code.drop (call.closeAt + 1) := by
  have above : code.take (code.length - (code.drop call.start).length) = code.take call.start := by
    rw [List.length_drop]
    by_cases inside : call.start ≤ code.length
    · rw [Nat.sub_sub_self inside]
    · rw [List.take_of_length_le (by omega), List.take_of_length_le (by omega)]
  simp only [CallSite.replaceIn, Call.toSite, above]

/-- The first element that a function finds something for, and those before it. -/
theorem findIdx?_map_isSome
    {α β : Type}
    (function : α → Option β)
    (list : List α) :
    (∀ element ∈ list, function element = none) ∧
        (list.map function).findIdx? Option.isSome = none ∧
        (list.map function).findSome? id = none ∨
      ∃ before element after result,
        list = before ++ element :: after ∧
          (∀ other ∈ before, function other = none) ∧
          function element = some result ∧
          (list.map function).findIdx? Option.isSome = some before.length ∧
          (list.map function).findSome? id = some result := by
  induction list with
  | nil =>
      exact .inl ⟨by simp, rfl, rfl⟩
  | cons first rest inductionHypothesis =>
      cases own : function first with
      | some result =>
          refine .inr ⟨[], first, rest, result, rfl, by simp, own, ?_, ?_⟩
          · simp [List.findIdx?_cons, own]
          · simp [own]
      | none =>
          rcases inductionHypothesis with ⟨all, noIndex, noFirst⟩ |
            ⟨before, element, after, result, rfl, others, found, index, isFirst⟩
          · refine .inl ⟨List.forall_mem_cons.mpr ⟨own, all⟩, ?_, ?_⟩
            · simp [List.findIdx?_cons, own, noIndex]
            · simp [own, noFirst]
          · refine .inr ⟨first :: before, element, after, result, rfl,
              List.forall_mem_cons.mpr ⟨own, others⟩, found, ?_, ?_⟩
            · rw [List.map_cons, own, List.findIdx?_cons, index]
              rfl
            · rw [List.map_cons, own]
              exact isFirst

/--
A replacing step ends with the code as it is when nothing can be built for the
calls from the given rank on; else it replaces the first call for which
something can, and goes on at its rank.
-/
theorem replaceCallsFrom_cases
    {callee : Text}
    (name : CalleeName callee)
    (build : List Text → Option Text)
    (limit rank : Nat)
    (code : Text) :
    (∀ site ∈ (callSites callee code).drop rank, build site.arguments = none) ∧
        replaceCallsFrom callee build (limit + 1) rank code = (code, 0) ∨
      ∃ before site after text,
        (callSites callee code).drop rank = before ++ site :: after ∧
          (∀ other ∈ before, build other.arguments = none) ∧
          build site.arguments = some text ∧
          replaceCallsFrom callee build (limit + 1) rank code =
            ((replaceCallsFrom callee build limit (rank + before.length)
                (site.replaceIn code text)).1,
              (replaceCallsFrom callee build limit (rank + before.length)
                (site.replaceIn code text)).2 + 1) := by
  have sites := Call.map_findAll name.notNumber code
  rw [← sites, ← List.map_drop]
  generalize remaining : (Call.findAll (· == callee) code).drop rank = calls
  rw [replaceCallsFrom]
  dsimp only
  rw [remaining]
  rcases findIdx?_map_isSome
      (fun call : Call => (build (call.arguments code)).map fun text => (call, text)) calls with
    ⟨all, noIndex, noFirst⟩ | ⟨before, call, after, result, rfl, others, found, index, isFirst⟩
  · refine .inl ⟨?_, ?_⟩
    · intro site member
      obtain ⟨call, among, rfl⟩ := List.mem_map.mp member
      exact Option.map_eq_none_iff.mp (all call among)
    · rw [noIndex, noFirst]
  · obtain ⟨text, isBuilt, rfl⟩ := Option.map_eq_some_iff.mp found
    refine .inr ⟨before.map (Call.toSite code), call.toSite code, after.map (Call.toSite code), text,
      ?_, ?_, isBuilt, ?_⟩
    · rw [List.map_append, List.map_cons]
    · intro site member
      obtain ⟨other, among, rfl⟩ := List.mem_map.mp member
      exact Option.map_eq_none_iff.mp (others other among)
    · rw [index, isFirst, List.length_map, Call.replaceIn_toSite]

theorem CallSite.replaceIn_append
    {site : CallSite}
    {above old : Text}
    (startsBelow : site.start = old ++ site.rest)
    (text : Text) :
    site.replaceIn (above ++ (old ++ site.rest)) text = above ++ (text ++ site.rest) := by
  rw [replaceIn, startsBelow, List.length_append, Nat.add_sub_cancel, List.take_left,
    List.append_assoc]

/-- What holds of code holds of it with calls replaced, when replacing one call keeps it. -/
theorem replaceCallsFrom_preserves
    {callee : Text}
    (name : CalleeName callee)
    {build : List Text → Option Text}
    (property : Text → Prop)
    (step : ∀ above old rest pieces new, EndsApart .outside false above → CallText callee pieces old →
      build (argumentsOf pieces) = some new → property (above ++ (old ++ rest)) →
      property (above ++ (new ++ rest)))
    (limit rank : Nat)
    {code : Text}
    (holds : property code) :
    property (replaceCallsFrom callee build limit rank code).1 := by
  induction limit generalizing rank code with
  | zero =>
      exact holds
  | succ limit inductionHypothesis =>
      rcases replaceCallsFrom_cases name build limit rank code with
        ⟨_, ends⟩ | ⟨before, site, after, new, parts, _, built, replaced⟩
      · rw [ends]
        exact holds
      · rw [replaced]
        apply inductionHypothesis
        have member : site ∈ callSites callee code := by
          apply List.mem_of_mem_drop
          rw [parts]
          exact List.mem_append_right _ List.mem_cons_self
        obtain ⟨above, old, rfl, startsBelow, apart, _, pieces, called, arguments⟩ :=
          exists_parts_of_mem_callSites name member
        rw [CallSite.replaceIn_append startsBelow]
        exact step above old site.rest pieces new apart called (arguments ▸ built) holds

/-- No call of a name can be replaced. -/
def Spent
    (callee : Text)
    (build : List Text → Option Text)
    (code : Text) :
    Prop :=
  ∀ site ∈ callSites callee code, build site.arguments = none

/-- Arguments from which nothing can be built allow it no more with another operand in them. -/
def Steadfast
    (build : List Text → Option Text)
    (new : Text) :
    Prop :=
  ∀ (old : Text) (first second : List Text),
    List.Forall₂ (ArgumentSwapped old new) first second → build first = none → build second = none

theorem unbuilt_of_swapped
    {build : List Text → Option Text}
    {old new : Text}
    (steadfast : Steadfast build new)
    {first second : List CallSite}
    (swapped : List.Forall₂
      (fun one other : CallSite =>
        List.Forall₂ (ArgumentSwapped old new) one.arguments other.arguments) first second)
    (unbuilt : ∀ site ∈ first, build site.arguments = none) :
    ∀ site ∈ second, build site.arguments = none := by
  induction swapped with
  | nil =>
      exact unbuilt
  | cons head tail inductionHypothesis =>
      obtain ⟨own, others⟩ := List.forall_mem_cons.mp unbuilt
      exact List.forall_mem_cons.mpr ⟨steadfast _ _ _ head own, inductionHypothesis others⟩

/-- In code that is parted at a call, the calls before it in the list are the calls above it. -/
theorem sitesAbove_eq_of_parts
    {callee above below : Text}
    (apart : EndsApart .outside false above)
    {before after : List CallSite}
    {site : CallSite}
    (startsBelow : site.start = below)
    (parts : callSites callee (above ++ below) = before ++ site :: after) :
    sitesAbove callee above below = before := by
  -- The calls above are those that start before the parting.
  let isAbove (other : CallSite) : Bool := below.length < other.start.length
  have ofAbove : (sitesAbove callee above below ++ callSites callee below).filter isAbove =
      sitesAbove callee above below := by
    rw [List.filter_append, List.filter_eq_self.mpr, List.filter_eq_nil_iff.mpr, List.append_nil]
    · intro other member
      obtain ⟨start, isStart, found⟩ := List.mem_filterMap.mp member
      have inside := length_le_of_mem_wordStarts isStart
      simpa [isAbove, siteAt_start found] using inside
    · intro other member
      obtain ⟨start, isStart, found⟩ := List.mem_filterMap.mp member
      have nonempty : start ≠ [] := by
        rintro rfl
        cases (endsApart_of_mem_wordStarts apart isStart).2
      simpa [isAbove, siteAt_start found] using List.length_pos_iff.mpr nonempty
  have ofParts : (before ++ site :: after).filter isAbove = before := by
    have ordered := pairwise_callSites callee (above ++ below)
    rw [parts, List.pairwise_append, List.pairwise_cons] at ordered
    obtain ⟨_, ⟨lower, _⟩, upper⟩ := ordered
    rw [List.filter_append, List.filter_eq_self.mpr, List.filter_eq_nil_iff.mpr, List.append_nil]
    · intro other member
      rcases List.mem_cons.mp member with rfl | below
      · simp [isAbove, startsBelow]
      · have shorter := lower other below
        rw [startsBelow] at shorter
        simpa [isAbove] using shorter.le
    · intro other member
      have longer := upper other member site List.mem_cons_self
      rw [startsBelow] at longer
      simpa [isAbove] using longer
  calc
    sitesAbove callee above below
      = (callSites callee (above ++ below)).filter isAbove := by
        rw [callSites_append callee apart below, ofAbove]
    _ = before := by
        rw [parts, ofParts]

/--
When replacing stops before its limit, no call can be replaced any more, given
that none of the calls that were passed could.
-/
theorem spent_replaceCallsFrom
    {callee : Text}
    (name : CalleeName callee)
    {build : List Text → Option Text}
    (operand : ∀ pieces text, (∀ piece ∈ pieces, IsClosed piece) →
      build (argumentsOf pieces) = some text → Operand text)
    (steadfast : ∀ arguments text, build arguments = some text → Steadfast build text)
    {limit rank : Nat}
    {code : Text}
    (passed : ∀ site ∈ (callSites callee code).take rank, build site.arguments = none)
    (stopped : (replaceCallsFrom callee build limit rank code).2 < limit) :
    Spent callee build (replaceCallsFrom callee build limit rank code).1 := by
  induction limit generalizing rank code with
  | zero =>
      exact absurd stopped (Nat.not_lt_zero _)
  | succ limit inductionHypothesis =>
      rcases replaceCallsFrom_cases name build limit rank code with
        ⟨others, ends⟩ | ⟨before, site, after, text, parts, unbuilt, built, step⟩
      · rw [ends]
        intro site member
        rw [← List.take_append_drop rank (callSites callee code)] at member
        exact (List.mem_append.mp member).elim (passed site) (others site)
      · rw [step] at stopped ⊢
        refine inductionHypothesis ?_ (Nat.lt_of_succ_lt_succ stopped)
        have member : site ∈ callSites callee code := by
          apply List.mem_of_mem_drop
          rw [parts]
          exact List.mem_append_right _ List.mem_cons_self
        obtain ⟨above, old, rfl, startsBelow, apart, oldOperand, pieces, called, arguments⟩ :=
          exists_parts_of_mem_callSites name member
        have newOperand := operand pieces text called.closed (arguments ▸ built)
        have whole : callSites callee (above ++ (old ++ site.rest)) =
            ((callSites callee (above ++ (old ++ site.rest))).take rank ++ before) ++
              site :: after := by
          rw [List.append_assoc, ← parts, List.take_append_drop]
        have isAbove := sitesAbove_eq_of_parts apart startsBelow whole
        have enough : rank ≤ (callSites callee (above ++ (old ++ site.rest))).length := by
          by_contra few
          rw [List.drop_eq_nil_of_le (by omega)] at parts
          cases List.append_eq_nil_iff.mp parts.symm |>.2
        have swapped := sitesAbove_swapped callee apart oldOperand newOperand site.rest
        have sameLength : (sitesAbove callee above (text ++ site.rest)).length =
            rank + before.length := by
          rw [← swapped.length_eq, isAbove, List.length_append, List.length_take,
            Nat.min_eq_left enough]
        rw [CallSite.replaceIn_append startsBelow, callSites_append callee apart,
          List.take_left' sameLength]
        refine unbuilt_of_swapped (steadfast _ _ built) swapped ?_
        rw [isAbove]
        exact List.forall_mem_append.mpr ⟨passed, unbuilt⟩

end ScriptUplift
