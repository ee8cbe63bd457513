import Mathlib.Data.List.SplitBy
import Mathlib.Tactic.Common
import ScriptUplift.Proofs.OrphanVerdicts
import ScriptUplift.Proofs.PureCode

namespace ScriptUplift

/-!
# Runs in another layout

Whether a run is safe is decided line by line, although a statement may go on
over several lines.  When its statements are written on one line each, comments
or not, the verdict is the same but for calls that a line break parts: on a line
of its own a callee whose bracket is closed further down is not called.  What a
line continues a statement with is read with its comment, so that a run with
comments there gets the verdict of another one.
-/

/-- The code of a line without its comment, also where the line continues a statement. -/
def Line.uncommented
    (line : Line) :
    Text :=
  (Scan.line none line.text).code.trim

theorem Line.code_of_starts
    {line : Line}
    (starts : line.continues = false) :
    line.code = line.uncommented := by
  rw [Line.code, starts, if_neg Bool.false_ne_true]
  rfl

namespace Orphan

/-- The lines of a run other than comments and blank lines. -/
def codeLines
    (run : List Tracked) :
    List Line :=
  (run.map (·.line)).filter (!·.category.isTrivia)

/-- The statements of a run, each with the code of the lines it is spread over. -/
def statementsOf
    (run : List Tracked) :
    List (List Text) :=
  ((codeLines run).splitBy fun _ below => below.continues).map fun statement =>
    (statement.map Line.uncommented).filter (· != [])

/-- A run whose statements are spread over lines in no other way than by plain line breaks. -/
structure SpreadPlainly
    (run : List Tracked) :
    Prop where
  /-- Lines that continue a statement carry no comment. -/
  uncommented : ∀ member ∈ run, member.line.code = member.line.uncommented
  plain : ∀ statement ∈ statementsOf run, BreaksPlainly statement
  /-- Whether the run begins with an assignment is told by its first line. -/
  binds :
    ∀ lead ∈ run.head?, ∀ statement ∈ (statementsOf run).head?,
      (Assignment.ofCode? (oneLine statement)).isSome =
        (Assignment.ofCode? lead.line.code).isSome

/-- A run that has the statements of another one, each on a line, whatever comments there are. -/
structure OneLined
    (run flat : List Tracked) :
    Prop where
  starts : ∀ member ∈ flat, member.line.continues = false
  codes : (codeLines flat).map Line.uncommented = (statementsOf run).map oneLine

/-- A run begins with its lead. -/
theorem exists_lead_of_run
    {taken : Nat}
    {seeds run : List Tracked}
    (isRun : .run run ∈ Segment.cut taken seeds) :
    ∃ lead rest, run = lead :: rest ∧ lead.line.isStatement = true := by
  fun_induction Segment.cut taken seeds with
  | case1 =>
      cases isRun
  | case2 tracked rest leads reach inductionHypothesis =>
      rcases List.mem_cons.mp isRun with isFirst | inRest
      · refine ⟨tracked.markOrphan, _, Segment.run.inj isFirst, ?_⟩
        have statement := Line.isStatement_of_leadsIn leads
        rw [Tracked.markOrphan, if_pos statement]
        simp only [Line.isStatement, Bool.and_eq_true] at statement ⊢
        exact ⟨statement.1, rfl⟩
      · exact inductionHypothesis inRest
  | case3 tracked rest stays inductionHypothesis =>
      rcases List.mem_cons.mp isRun with isFirst | inRest
      · cases isFirst
      · exact inductionHypothesis inRest
  | case4 taken tracked rest inductionHypothesis =>
      exact inductionHypothesis isRun

/-- A run with a lead is safe when the lead binds a name and all lines of code are pure. -/
theorem isSafeRun_cons
    {lead : Tracked}
    {rest : List Tracked}
    (uncommented : ∀ member ∈ lead :: rest, member.line.code = member.line.uncommented) :
    isSafeRun (lead :: rest) =
      ((Assignment.ofCode? lead.line.code).isSome &&
        (codeLines (lead :: rest)).all fun line => isPureCode line.uncommented) := by
  have sameLines : ((lead :: rest).all fun tracked =>
      tracked.line.category.isTrivia || isPureCode tracked.line.code) =
        (codeLines (lead :: rest)).all fun line => isPureCode line.uncommented := by
    rw [codeLines, List.all_filter, List.all_map, Bool.eq_iff_iff, List.all_eq_true,
      List.all_eq_true]
    refine forall₂_congr fun member isMember => ?_
    rw [uncommented member isMember, Function.comp_apply, Bool.not_not]
  exact congrArg ((Assignment.ofCode? lead.line.code).isSome && ·) sameLines

/-- The lines of code are those of the statements; blank lines in statements have no effects. -/
theorem all_statementsOf
    (run : List Tracked) :
    (statementsOf run).all (·.all isPureCode) =
      (codeLines run).all fun line => isPureCode line.uncommented := by
  have blank : isPureCode [] = true := by
    decide
  conv_rhs => rw [← List.flatten_splitBy (fun _ below => below.continues) (codeLines run)]
  rw [statementsOf, List.all_map, List.all_flatten]
  refine List.all_congr rfl fun statement => ?_
  rw [Function.comp_apply, List.all_filter, List.all_map]
  refine List.all_congr rfl fun line => ?_
  by_cases isBlank : line.uncommented = []
  · simp [isBlank, blank]
  · simp [isBlank]

/-- With every statement on a line, the lead is the first statement of the run. -/
theorem OneLined.exists_first
    {run : List Tracked}
    {lead : Tracked}
    {rest : List Tracked}
    (oneLined : OneLined run (lead :: rest))
    (statement : lead.line.isStatement = true) :
    ∃ first ∈ (statementsOf run).head?, lead.line.code = oneLine first := by
  have isCode := Line.isTrivia_of_isStatement statement
  have codes := oneLined.codes
  rw [codeLines, List.map_cons, List.filter_cons_of_pos (by simp [isCode]), List.map_cons] at codes
  obtain ⟨first, others, isRun, code, _⟩ := List.map_eq_cons_iff.mp codes.symm
  refine ⟨first, by rw [isRun]; rfl, ?_⟩
  rw [code, Line.code_of_starts (oneLined.starts lead List.mem_cons_self)]

/--
The verdict about a run and its layout.  A run that is spread over lines by plain
line breaks is safe exactly if its lead binds a name, no word of it has effects,
and every callee is allowed, apart from those that no line calls by itself.
When its statements are written on one line each, with or without comments, the
run is safe exactly if it was safe before and the callees are allowed that line
breaks part from their brackets.
-/
theorem verdict_on_one_line
    {lines others : List Line}
    {run flat : List Tracked}
    (isRun : .run run ∈ segmentsOf lines)
    (isFlat : .run flat ∈ segmentsOf others)
    (spread : SpreadPlainly run)
    (oneLined : OneLined run flat) :
    (isSafeRun run = true ↔
        (run.head?.bind fun lead => Assignment.ofCode? lead.line.code).isSome = true ∧
          ∀ statement ∈ statementsOf run,
            (∀ word ∈ wordsOf (oneLine statement), word ∉ effectWords) ∧
              ∀ callee ∈ calleesOf (oneLine statement),
                callee.isAllowed = true ∨ ∀ line ∈ statement, callee ∉ calleesOf line) ∧
      isSafeRun flat =
        (isSafeRun run && (statementsOf run).all fun statement =>
          (partedCalleesOf statement).all (·.isAllowed)) := by
  obtain ⟨lead, rest, rfl, _⟩ := exists_lead_of_run isRun
  obtain ⟨flatLead, flatRest, rfl, statement⟩ := exists_lead_of_run isFlat
  obtain ⟨first, isFirst, code⟩ := oneLined.exists_first statement
  have safe := isSafeRun_cons spread.uncommented
  have flatSafe := isSafeRun_cons fun member isMember =>
    Line.code_of_starts (oneLined.starts member isMember)
  rw [← all_statementsOf] at safe
  have flatPure : ((codeLines (flatLead :: flatRest)).all fun line =>
      isPureCode line.uncommented) =
        (statementsOf (lead :: rest)).all fun statement => isPureCode (oneLine statement) := by
    have codes := congrArg (List.all · isPureCode) oneLined.codes
    simpa only [List.all_map, Function.comp_def] using codes
  rw [flatPure, code, spread.binds lead rfl first isFirst] at flatSafe
  refine ⟨?_, ?_⟩
  · rw [safe, Bool.and_eq_true, List.all_eq_true]
    exact and_congr Iff.rfl (forall₂_congr fun statement isStatement =>
      all_isPureCode_iff (spread.plain statement isStatement))
  · rw [flatSafe, safe, Bool.and_assoc]
    congr 1
    rw [Bool.eq_iff_iff, Bool.and_eq_true, List.all_eq_true, List.all_eq_true, List.all_eq_true,
      ← forall₂_and]
    refine forall₂_congr fun statement isStatement => ?_
    rw [isPureCode_oneLine (spread.plain statement isStatement), Bool.and_eq_true]

/-- A list over four lines, with a call over two of them, is as safe as on one line. -/
theorem safe_list_on_one_line :
    ∃ run flat,
      .run run ∈ segmentsOf ((Source.ofContent "x.gd"
          "x = [ # numbers\n\tmax(\n\t\t2, 3),\n]\n".toList).classifyStage .detected 4).indentStage.lines ∧
        .run flat ∈ segmentsOf ((Source.ofContent "x.gd"
          "x = [ max( 2, 3), ] # all\n".toList).classifyStage .detected 4).indentStage.lines ∧
        SpreadPlainly run ∧ OneLined run flat ∧
        (statementsOf run).map partedCalleesOf = [[⟨"max".toList, false⟩]] ∧
        isSafeRun run = true ∧
        (isSafeRun run = true ↔
          (run.head?.bind fun lead => Assignment.ofCode? lead.line.code).isSome = true ∧
            ∀ statement ∈ statementsOf run,
              (∀ word ∈ wordsOf (oneLine statement), word ∉ effectWords) ∧
                ∀ callee ∈ calleesOf (oneLine statement),
                  callee.isAllowed = true ∨ ∀ line ∈ statement, callee ∉ calleesOf line) ∧
        isSafeRun flat =
          (isSafeRun run && (statementsOf run).all fun statement =>
            (partedCalleesOf statement).all (·.isAllowed)) := by
  let run := (segmentsOf ((Source.ofContent "x.gd"
    "x = [ # numbers\n\tmax(\n\t\t2, 3),\n]\n".toList).classifyStage
      .detected 4).indentStage.lines).flatMap (·.members)
  let flat := (segmentsOf ((Source.ofContent "x.gd"
    "x = [ max( 2, 3), ] # all\n".toList).classifyStage
      .detected 4).indentStage.lines).flatMap (·.members)
  have isRun : .run run ∈ segmentsOf ((Source.ofContent "x.gd"
      "x = [ # numbers\n\tmax(\n\t\t2, 3),\n]\n".toList).classifyStage
        .detected 4).indentStage.lines := by
    decide +kernel
  have isFlat : .run flat ∈ segmentsOf ((Source.ofContent "x.gd"
      "x = [ max( 2, 3), ] # all\n".toList).classifyStage .detected 4).indentStage.lines := by
    decide +kernel
  have spread : SpreadPlainly run :=
    ⟨by decide +kernel, by decide +kernel, by decide +kernel⟩
  have oneLined : OneLined run flat :=
    ⟨by decide +kernel, by decide +kernel⟩
  exact ⟨run, flat, isRun, isFlat, spread, oneLined, by decide +kernel, by decide +kernel,
    verdict_on_one_line isRun isFlat spread oneLined⟩

/--
The verdict depends on the layout: a call that is closed on a later line is
overlooked, a comment on a line that continues a statement is read as code, and
an assignment is not seen when its operator stands on a later line.
-/
theorem verdict_depends_on_layout :
    let verdicts := fun content : String =>
      (orphanRuns ((Source.ofContent "x.gd" content.toList).classifyStage
        .detected 4).indentStage).map isSafeRun
    (verdicts "x = compute(\n\t1)\n" = [true] ∧ verdicts "x = compute( 1)\n" = [false]) ∧
      (verdicts "x = [\n\t1, # free slot\n]\n" = [false] ∧ verdicts "x = [ 1, ]\n" = [true]) ∧
      (verdicts "x: Array[\n\tint] = []\n" = [false] ∧
        verdicts "x: Array[ int] = []\n" = [true]) := by
  decide +kernel

end Orphan

end ScriptUplift
