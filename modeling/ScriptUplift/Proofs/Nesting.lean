import Mathlib.Data.List.Chain
import Mathlib.Tactic.Common
import ScriptUplift.Proofs.Handoff
import ScriptUplift.Proofs.Reindented

namespace ScriptUplift

/-!
# Repaired statements nest

The open blocks of a repair stand inside each other: the body of the outermost
belongs at depth one, and the body of every other one level below the block it
stands in.  Whichever blocks a line closes, those that stay open are the outer
ones, so that a statement is moved at most one level below the statement above
it, and there only under a header.
-/

namespace Indent

/-- Open blocks, innermost first, each of which belongs one level below the block around it. -/
def Nested : List Frame → Prop
  | [] =>
      True
  | frame :: outer =>
      frame.depth = outer.length + 1 ∧ Nested outer

/-- In nested blocks a statement belongs as deep as there are blocks. -/
theorem Nested.bodyDepthOf_eq
    {frames : List Frame}
    (nested : Nested frames) :
    bodyDepthOf frames = frames.length := by
  cases frames with
  | nil =>
      rfl
  | cons frame outer =>
      exact nested.1

theorem Nested.beginInnermost
    {frames : List Frame}
    (nested : Nested frames)
    (found : Nat) :
    Nested (beginInnermost found frames) := by
  cases frames with
  | nil =>
      exact nested
  | cons frame outer =>
      exact nested

@[simp] theorem length_beginInnermost
    (found : Nat)
    (frames : List Frame) :
    (beginInnermost found frames).length = frames.length := by
  cases frames <;> rfl

theorem length_dropToClass_le
    (found : Nat)
    (frames : List Frame) :
    (dropToClass found frames).length ≤ frames.length := by
  fun_induction dropToClass found frames with
  | case1 =>
      exact Nat.le_refl _
  | case2 frame outer stays =>
      exact Nat.le_refl _
  | case3 frame outer closes inductionHypothesis =>
      exact Nat.le_succ_of_le inductionHypothesis

theorem length_closeDeeper_le
    (found : Nat)
    (frames : List Frame) :
    (closeDeeper found frames).length ≤ frames.length := by
  fun_induction closeDeeper found frames with
  | case1 =>
      exact Nat.le_refl _
  | case2 frame outer closes inductionHypothesis =>
      exact Nat.le_succ_of_le inductionHypothesis
  | case3 frame outer stays =>
      exact Nat.le_refl _

/-- The blocks that stay open around a declaration are the outer ones. -/
theorem Nested.dropToClass
    {frames : List Frame}
    (nested : Nested frames)
    (found : Nat) :
    Nested (dropToClass found frames) := by
  fun_induction Indent.dropToClass found frames with
  | case1 =>
      exact nested
  | case2 frame outer stays =>
      exact nested
  | case3 frame outer closes inductionHypothesis =>
      exact inductionHypothesis nested.2

/-- The blocks that stay open around a plain statement are the outer ones. -/
theorem Nested.closeDeeper
    {frames : List Frame}
    (nested : Nested frames)
    (found : Nat) :
    Nested (closeDeeper found frames) := by
  fun_induction Indent.closeDeeper found frames with
  | case1 =>
      exact nested
  | case2 frame outer closes inductionHypothesis =>
      exact inductionHypothesis nested.2
  | case3 frame outer stays =>
      exact nested

/-- The open blocks around a statement. -/
def around
    (frames : List Frame)
    (line : Line) :
    List Frame :=
  if snapsToClass line then enterDeclaration frames line.depth
  else enterStatement frames line.depth

/-- The open blocks below a statement. -/
def inside
    (frames : List Frame)
    (line : Line) :
    List Frame :=
  if line.opens then
    { kind := frameKindOf line
      depth := bodyDepthOf (around frames line) + 1
      headerDepth := line.depth } :: around frames line
  else
    around frames line

/-- Whether the innermost block waits for its first statement. -/
def awaitsBody
    (frames : List Frame) :
    Bool :=
  frames.head?.any (·.bodyDepth.isNone)

/-- A plain statement right below a header is taken for the first of its body. -/
theorem enterStatement_of_awaitsBody
    {frames : List Frame}
    (waiting : awaitsBody frames = true)
    (found : Nat) :
    enterStatement frames found = beginInnermost found frames := by
  cases frames with
  | nil =>
      rfl
  | cons frame outer =>
      have unseen : frame.bodyDepth.isNone = true := waiting
      simp only [enterStatement, unseen, if_true, beginInnermost]

/-- A plain statement below another one closes the blocks that begin right of it. -/
theorem enterStatement_of_not_awaitsBody
    {frames : List Frame}
    (seen : awaitsBody frames = false)
    (found : Nat) :
    enterStatement frames found = closeDeeper found frames := by
  cases frames with
  | nil =>
      rfl
  | cons frame outer =>
      have begun : frame.bodyDepth.isNone = false := seen
      simp only [enterStatement, begun, Bool.false_eq_true, if_false]

theorem Nested.around
    {frames : List Frame}
    (nested : Nested frames)
    (line : Line) :
    Nested (around frames line) := by
  unfold Indent.around
  split
  · exact (nested.dropToClass line.depth).beginInnermost line.depth
  · cases waiting : awaitsBody frames with
    | true =>
        rw [enterStatement_of_awaitsBody waiting]
        exact nested.beginInnermost line.depth
    | false =>
        rw [enterStatement_of_not_awaitsBody waiting]
        exact nested.closeDeeper line.depth

theorem length_around_le
    (frames : List Frame)
    (line : Line) :
    (around frames line).length ≤ frames.length := by
  unfold around
  split
  · rw [enterDeclaration, length_beginInnermost]
    exact length_dropToClass_le line.depth frames
  · cases waiting : awaitsBody frames with
    | true =>
        rw [enterStatement_of_awaitsBody waiting, length_beginInnermost]
    | false =>
        rw [enterStatement_of_not_awaitsBody waiting]
        exact length_closeDeeper_le line.depth frames

/-- What belongs right below a header is taken there, unless it belongs at class scope. -/
theorem length_around_of_awaitsBody
    {frames : List Frame}
    (waiting : awaitsBody frames = true)
    {line : Line}
    (plain : snapsToClass line = false) :
    (around frames line).length = frames.length := by
  unfold around
  rw [if_neg (by simp [plain]), enterStatement_of_awaitsBody waiting, length_beginInnermost]

theorem Nested.inside
    {frames : List Frame}
    (nested : Nested frames)
    (line : Line) :
    Nested (inside frames line) := by
  have aroundNested := nested.around line
  unfold Indent.inside
  split
  · exact ⟨congrArg (· + 1) aroundNested.bodyDepthOf_eq, aroundNested⟩
  · exact aroundNested

theorem length_inside
    (frames : List Frame)
    (line : Line) :
    (inside frames line).length =
      (around frames line).length + if line.opens then 1 else 0 := by
  unfold inside
  split <;> rfl

theorem awaitsBody_inside_of_opens
    (frames : List Frame)
    {line : Line}
    (opens : line.opens = true) :
    awaitsBody (inside frames line) = true := by
  unfold inside
  rw [if_pos opens]
  rfl

/-- A statement, moved to where the blocks around it say. -/
def placed
    (unit : IndentUnit)
    (frames : List Frame)
    (line : Line) :
    Line :=
  { line with
    scope := scopeOf (around frames line)
    text := unit.reindent line.text (bodyDepthOf (around frames line)) }

/-- Repair places a statement and opens its block below it. -/
theorem repairLines_statement
    (unit : IndentUnit)
    (frames : List Frame)
    (shift : Int)
    {line : Line}
    (statement : line.isStatement = true)
    (rest : List Line) :
    repairLines unit frames shift (line :: rest) =
      placed unit frames line ::
        repairLines unit (inside frames line)
          ((bodyDepthOf (around frames line) : Int) - line.depth) rest := by
  simp only [Line.isStatement, Bool.and_eq_true, Bool.not_eq_true'] at statement
  rw [repairLines, planLines, if_neg (by simp [statement.1]), if_neg (by simp [statement.2])]
  rfl

/-- A line that starts no statement moves with the one above and leaves the open blocks alone. -/
theorem repairLines_of_not_isStatement
    (unit : IndentUnit)
    (frames : List Frame)
    (shift : Int)
    {line : Line}
    (noStatement : line.isStatement = false)
    (rest : List Line) :
    repairLines unit frames shift (line :: rest) =
      { line with
        scope := scopeOf frames
        text :=
          if line.continues = true ∧ shift ≠ 0 ∧ line.inString = false then
            unit.shift shift line.text
          else line.text } ::
        repairLines unit frames shift rest := by
  rw [repairLines, planLines]
  split
  · rename_i continues
    by_cases moves : shift ≠ 0 ∧ line.inString = false
    · simp [continues, moves, PlannedLine.moved, Move.text, repairLines]
    · rw [if_neg moves, if_neg (fun moved => moves moved.2)]
      rfl
  · rename_i starts
    rw [if_pos (by simpa [Line.isStatement, starts] using noStatement)]
    simp [starts, PlannedLine.moved, Move.text, repairLines]

/-- What repair hands from line to line: the open blocks and the shift of the last statement. -/
structure Progress where
  frames : List Frame
  shift : Int

namespace Progress

/-- Where repair is below one more line. -/
def below
    (progress : Progress)
    (line : Line) :
    Progress :=
  if line.isStatement then
    { frames := inside progress.frames line
      shift := (bodyDepthOf (around progress.frames line) : Int) - line.depth }
  else
    progress

/-- Where repair is below lines. -/
def belowAll
    (progress : Progress)
    (lines : List Line) :
    Progress :=
  lines.foldl below progress

theorem frames_below
    (progress : Progress)
    {line : Line}
    (statement : line.isStatement = true) :
    (progress.below line).frames = inside progress.frames line :=
  congrArg frames (if_pos statement)

theorem below_of_not_isStatement
    (progress : Progress)
    {line : Line}
    (noStatement : line.isStatement = false) :
    progress.below line = progress :=
  if_neg (Bool.eq_false_iff.mp noStatement)

theorem belowAll_append
    (progress : Progress)
    (first second : List Line) :
    progress.belowAll (first ++ second) = (progress.belowAll first).belowAll second :=
  List.foldl_append

/-- Repair of lines, from where it is. -/
def repair
    (progress : Progress)
    (unit : IndentUnit)
    (lines : List Line) :
    List Line :=
  repairLines unit progress.frames progress.shift lines

/-- Repair goes line by line and takes nothing but its progress from one to the next. -/
theorem repair_cons
    (progress : Progress)
    (unit : IndentUnit)
    (line : Line)
    (rest : List Line) :
    progress.repair unit (line :: rest) =
      progress.repair unit [line] ++ (progress.below line).repair unit rest := by
  unfold repair below
  cases statement : line.isStatement with
  | false =>
      rw [repairLines_of_not_isStatement _ _ _ statement,
        repairLines_of_not_isStatement _ _ _ statement, if_neg Bool.false_ne_true]
      rfl
  | true =>
      rw [repairLines_statement _ _ _ statement, repairLines_statement _ _ _ statement,
        if_pos rfl]
      rfl

/-- Repair of one stretch of lines goes on where the repair of the stretch above it ended. -/
theorem repair_append
    (progress : Progress)
    (unit : IndentUnit)
    (first second : List Line) :
    progress.repair unit (first ++ second) =
      progress.repair unit first ++ (progress.belowAll first).repair unit second := by
  induction first generalizing progress with
  | nil =>
      rfl
  | cons line rest inductionHypothesis =>
      rw [List.cons_append, repair_cons, inductionHypothesis, repair_cons progress unit line rest,
        List.append_assoc]
      rfl

end Progress

/-- A line in the version before repair and in the version after it. -/
abbrev Versions :=
  Line × Line

/-- The statements of lines, each in both versions. -/
def statementVersions
    (before after : List Line) :
    List Versions :=
  (before.zip after).filter (·.1.isStatement)

/--
A statement stands below another one: at most one level deeper under a header,
and no deeper otherwise; right under a header it is one level deeper unless it
was read as a declaration or header that belongs at class scope.
-/
structure StandsBelow
    (unit : IndentUnit)
    (above below : Versions) :
    Prop where
  lead : below.2.text.indentation = unit.lead below.2.depth
  bound : below.2.depth ≤ above.2.depth + if above.2.opens then 1 else 0
  body : above.2.opens = true → snapsToClass below.1 = false →
    below.2.depth = above.2.depth + 1

/-- A statement stands where open blocks allow it. -/
structure StandsIn
    (unit : IndentUnit)
    (frames : List Frame)
    (statement : Versions) :
    Prop where
  lead : statement.2.text.indentation = unit.lead statement.2.depth
  bound : statement.2.depth ≤ frames.length
  body : awaitsBody frames = true → snapsToClass statement.1 = false →
    statement.2.depth = frames.length

end Indent

/-- A line that is read as a statement holds more than indentation. -/
theorem Line.all_isIndentChar_of_isStatement
    {line : Line}
    {carry : Carry}
    {context : Context}
    {opens : Bool}
    (known : line.readIn carry context opens = line)
    (statement : line.isStatement = true) :
    line.text.all isIndentChar = false := by
  apply Text.all_isIndentChar_of_not_isBlank
  rw [Bool.eq_false_iff]
  intro blank
  rw [← known] at statement
  simp only [isStatement, readIn, Bool.not_not, Bool.and_eq_true] at statement
  obtain ⟨neutral, code⟩ := statement
  simp [neutral, classify, blank, Category.isTrivia] at code

namespace Indent

/-- A statement is found at the depth at which it was placed. -/
theorem depth_placed
    (unit : IndentUnit)
    {frames : List Frame}
    (nested : Nested frames)
    {line : Line}
    (code : line.text.all isIndentChar = false) :
    unit.depth (placed unit frames line).text = (around frames line).length := by
  rw [placed, unit.depth_reindent code, (nested.around line).bodyDepthOf_eq]

/-- Read again after repair, a statement is known at the depth it was moved to. -/
theorem standsIn_of_placed
    {unit : IndentUnit}
    {frames : List Frame}
    (nested : Nested frames)
    {line moved : Line}
    (code : line.text.all isIndentChar = false)
    (movedText : moved.text = (placed unit frames line).text)
    (movedDepth : moved.depth = unit.depth moved.text) :
    moved.depth = (around frames line).length ∧ StandsIn unit frames (line, moved) := by
  have depth : moved.depth = (around frames line).length := by
    rw [movedDepth, movedText, depth_placed unit nested code]
  refine ⟨depth, ?_, ?_, ?_⟩
  · dsimp only
    rw [movedText, placed, unit.indentation_reindent, depth, (nested.around line).bodyDepthOf_eq]
  · rw [depth]
    exact length_around_le frames line
  · intro waiting plain
    rw [depth]
    exact length_around_of_awaitsBody waiting plain

/-- What stands inside of the blocks that a statement leaves open stands below the statement. -/
theorem StandsIn.standsBelow
    {unit : IndentUnit}
    {frames : List Frame}
    {above below : Versions}
    (stands : StandsIn unit (inside frames above.1) below)
    (sameOpens : above.2.opens = above.1.opens)
    (depth : above.2.depth = (around frames above.1).length) :
    StandsBelow unit above below where
  lead := stands.lead
  bound := by
    rw [sameOpens, depth, ← length_inside]
    exact stands.bound
  body := by
    intro opens plain
    rw [sameOpens] at opens
    rw [stands.body (awaitsBody_inside_of_opens frames opens) plain, length_inside, if_pos opens,
      depth]

/-- From any nested blocks on, repair leaves statements that stand below each other. -/
theorem isChain_repairLines
    {unit : IndentUnit}
    {frames : List Frame}
    (nested : Nested frames)
    (shift : Int)
    {carry : Carry}
    {first second : Context}
    (sameUnit : second.unit = unit)
    {lines : List Line}
    (fresh : readLines carry first lines = lines) :
    let statements := statementVersions lines
      (readLines carry second (repairLines unit frames shift lines))
    (∀ head ∈ statements.head?, StandsIn unit frames head) ∧
      statements.IsChain (StandsBelow unit) := by
  induction lines generalizing frames shift carry first second with
  | nil =>
      exact ⟨by simp [statementVersions], .nil⟩
  | cons line rest inductionHypothesis =>
      have repaired := repairLines_reindented unit frames shift fresh
      have same := readLines_reindented first second repaired
      rw [fresh] at same
      rw [readLines_cons, List.cons.injEq] at fresh
      obtain ⟨known, restFresh⟩ := fresh
      cases statement : line.isStatement with
      | false =>
          have shape := repairLines_of_not_isStatement unit frames shift statement rest
          rw [shape] at repaired
          cases repaired with
          | cons sameCode kept _ =>
              have moves := Scan.moved_of_kept sameCode kept
              rw [shape, readLines_cons, carry.after_moved moves]
              simp only [statementVersions, List.zip_cons_cons, List.filter_cons, statement,
                Bool.false_eq_true, if_false]
              exact inductionHypothesis nested shift
                ((Context.unit_below _ _).trans sameUnit) restFresh
      | true =>
          have shape := repairLines_statement unit frames shift statement rest
          rw [shape] at repaired same ⊢
          rw [readLines_cons, List.forall₂_cons] at same
          rw [readLines_cons]
          cases repaired with
          | cons sameCode kept _ =>
              rw [carry.after_moved (Scan.moved_of_kept sameCode kept)] at same ⊢
              generalize readIsMoved : Line.readIn _ carry second _ = moved at same ⊢
              have movedText : moved.text = (placed unit frames line).text := by
                rw [← readIsMoved]
                rfl
              have movedDepth : moved.depth = unit.depth moved.text := by
                rw [← readIsMoved, ← sameUnit]
                rfl
              obtain ⟨depth, stands⟩ := standsIn_of_placed nested
                (Line.all_isIndentChar_of_isStatement known statement) movedText movedDepth
              obtain ⟨restHead, restChain⟩ := inductionHypothesis (nested.inside line)
                ((bodyDepthOf (around frames line) : Int) - line.depth)
                ((second.unit_below moved).trans sameUnit) restFresh
              simp only [statementVersions, List.zip_cons_cons, List.filter_cons, statement,
                if_true, List.head?_cons, Option.mem_some_iff, forall_eq']
              refine ⟨stands, List.isChain_cons.mpr ⟨?_, restChain⟩⟩
              intro below isBelow
              exact (restHead below isBelow).standsBelow same.1.opens depth

/-- Lines that stay statements are paired with the statements that they are. -/
theorem statementVersions_of_stays
    {before after : List Line}
    (stay : List.Forall₂ Line.Stays before after) :
    (statementVersions before after).map Prod.fst = before.filter (·.isStatement) ∧
      (statementVersions before after).map Prod.snd = after.filter (·.isStatement) ∧
      ∀ statement ∈ statementVersions before after, statement.2.opens = statement.1.opens := by
  unfold statementVersions
  induction stay with
  | nil =>
      exact ⟨rfl, rfl, by simp⟩
  | @cons line moved rest others stays _ inductionHypothesis =>
      obtain ⟨firsts, seconds, opens⟩ := inductionHypothesis
      rw [List.zip_cons_cons]
      cases statement : line.isStatement with
      | false =>
          have movedToo := stays.isStatement_eq.trans statement
          simp only [List.filter_cons, statement, movedToo, Bool.false_eq_true, if_false]
          exact ⟨firsts, seconds, opens⟩
      | true =>
          have movedToo := stays.isStatement_eq.trans statement
          simp only [List.filter_cons, statement, movedToo, if_true, List.map_cons, firsts, seconds,
            List.forall_mem_cons]
          exact ⟨trivial, trivial, stays.opens, opens⟩

end Indent

namespace Source

theorem unit_indentStage
    {source : Source}
    (consistent : source.Consistent) :
    source.indentStage.unit = source.unit := by
  unfold indentStage
  dsimp only
  split
  · rfl
  · have settled : (source.unit).isUnsettled = false := consistent.settled
    simp [refresh, count, register, settled]

/-- Indentation repair of a consistent file leaves the lines it moved, read again. -/
theorem lines_indentStage
    {source : Source}
    (consistent : source.Consistent) :
    source.indentStage.lines =
      refreshLines source.unit (Indent.repairLines source.unit [] 0 source.lines) := by
  have again := consistent.indentStage.fresh
  rw [unit_indentStage consistent] at again
  unfold indentStage at again ⊢
  dsimp only at again ⊢
  split
  · rename_i unchanged
    rw [if_pos unchanged] at again
    exact again.symm
  · have settled : (source.unit).isUnsettled = false := consistent.settled
    simp [refresh, count, register, settled]

/--
Whatever the whitespace of a script was, the statements of the repaired script
nest.  The first stands at the left margin, and every other is indented by
whole levels: no deeper than the statement above it, and one level deeper at
most when that one opens a block.  What follows a block opener stands in its
block unless it was read as a declaration or header that belongs at class scope.
-/
theorem repaired_statements_nest
    (style : IndentUnit.Style)
    (width : Int)
    (rules : List UpliftRule)
    (path : String)
    (content : Text) :
    let before := ((ofContent path content).classifyStage style width).upliftStage rules
    let after := before.indentStage
    let statements := Indent.statementVersions before.lines after.lines
    (statements.map Prod.fst = before.lines.filter (·.isStatement) ∧
        statements.map Prod.snd = after.lines.filter (·.isStatement) ∧
        ∀ statement ∈ statements, statement.2.opens = statement.1.opens) ∧
      after.unit = before.unit ∧
      (∀ first ∈ statements.head?,
        first.2.depth = 0 ∧ first.2.text.indentation = after.unit.lead 0) ∧
      statements.IsChain (Indent.StandsBelow after.unit) := by
  intro before after statements
  have consistent : before.Consistent :=
    (classifyStage_consistent style width _).upliftStage rules
  have sameUnit : after.unit = before.unit := unit_indentStage consistent
  have lines : after.lines = readLines .neutral { unit := before.unit }
      (Indent.repairLines before.unit [] 0 before.lines) :=
    lines_indentStage consistent
  have known : readLines .neutral { unit := before.unit } before.lines = before.lines :=
    consistent.fresh
  have stay : List.Forall₂ Line.Stays before.lines after.lines := by
    have moved := Indent.repairLines_reindented before.unit [] 0 known
    have same := readLines_reindented { unit := before.unit } { unit := before.unit } moved
    rwa [known, ← lines] at same
  have nested : Indent.Nested [] := trivial
  have again : ({ unit := before.unit } : Context).unit = before.unit := rfl
  obtain ⟨head, chain⟩ := Indent.isChain_repairLines nested 0 again known
  rw [← lines] at head chain
  refine ⟨Indent.statementVersions_of_stays stay, sameUnit, ?_, sameUnit ▸ chain⟩
  intro first isFirst
  obtain ⟨lead, bound, _⟩ := head first isFirst
  have margin : first.2.depth = 0 := Nat.le_zero.mp bound
  rw [margin] at lead
  exact ⟨margin, sameUnit ▸ lead⟩

end Source

end ScriptUplift
