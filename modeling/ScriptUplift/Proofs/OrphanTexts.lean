import Mathlib.Data.List.Forall2
import Mathlib.Tactic.Common
import ScriptUplift.Proofs.Conservation
import ScriptUplift.Proofs.Settled

namespace ScriptUplift

/-!
# The texts orphan repair leaves

Orphan repair cuts a file into its runs and the lines between them and treats
each stretch by itself.  What it leaves is therefore the same stretches in the
same order: a run that only assigns values one level deeper under a header of
its own, every other run behind suppression markers, and everything else as it
was.  Without the headers, which alone have no number, the file is the file it
was, line by line.
-/

/-- The number of a line with its text. -/
def Line.entry
    (line : Line) :
    Nat × Text :=
  (line.number, line.text)

namespace Segment

/-- Whether a stretch is a run that only assigns values. -/
def isSafe : Segment → Bool
  | .kept _ => false
  | .run members => isSafeRun members

/-- Whether a stretch is a run that does more than assign values. -/
def isRisky : Segment → Bool
  | .kept _ => false
  | .run members => !isSafeRun members

/-- The text a line of a stretch is left with. -/
def textLeft
    (unit : IndentUnit)
    (segment : Segment)
    (line : Line) :
    Text :=
  if line.text.isBlank then line.text
  else if segment.isRisky then Marker.suppressed ++ line.text
  else if segment.isSafe && !line.inString then unit.lead 1 ++ line.text
  else line.text

/-- The statements of a stretch that are commented out. -/
def suppressed
    (segment : Segment) :
    List Tracked :=
  if segment.isRisky then segment.members.filter (·.line.isStatement) else []

/-- Lines hold the texts a stretch is left with, under the numbers of its lines. -/
def LeavesTexts
    (unit : IndentUnit)
    (segment : Segment)
    (piece : List Line) :
    Prop :=
  piece.map Line.entry =
    segment.members.map fun member => (member.line.number, segment.textLeft unit member.line)

/-- What a stretch is left as: its lines, below a header if it is a safe run. -/
inductive LeftAs
    (base : Text)
    (unit : IndentUnit)
    (segment : Segment) :
    List Line → Prop
  | alone
      {piece : List Line}
      (noSafe : segment.isSafe = false)
      (texts : segment.LeavesTexts unit piece) :
      LeftAs base unit segment piece
  | wrapped
      {header : Line}
      {piece : List Line}
      (safe : segment.isSafe = true)
      (isHeader : Orphan.IsWrapperHeader base unit header)
      (texts : segment.LeavesTexts unit piece) :
      LeftAs base unit segment (header :: piece)

namespace LeftAs

/-- What a stretch is left as is seen in numbers and texts. -/
theorem of_entries
    {base : Text}
    {unit : IndentUnit}
    {segment : Segment}
    {piece other : List Line}
    (left : segment.LeftAs base unit piece)
    (same : other.map Line.entry = piece.map Line.entry) :
    segment.LeftAs base unit other := by
  cases left with
  | alone noSafe texts =>
      exact .alone noSafe (same.trans texts)
  | wrapped safe isHeader texts =>
      rw [List.map_cons, List.map_eq_cons_iff] at same
      obtain ⟨again, rest, rfl, sameHeader, sameRest⟩ := same
      obtain ⟨noNumber, depth, name, named, shape⟩ := isHeader
      have number := congrArg Prod.fst sameHeader
      have text := congrArg Prod.snd sameHeader
      exact .wrapped safe ⟨number.trans noNumber, depth, name, named, text.trans shape⟩
        (sameRest.trans texts)

/-- Without its header, a stretch is left line by line; the header is the line without a number. -/
theorem of_numbered
    {base : Text}
    {unit : IndentUnit}
    {segment : Segment}
    {piece : List Line}
    (left : segment.LeftAs base unit piece)
    (numbered : ∀ member ∈ segment.members, member.line.number ≠ 0) :
    (piece.filter (·.number != 0)).map (·.text) =
        segment.members.map (segment.textLeft unit ·.line) ∧
      piece.countP (·.number == 0) = if segment.isSafe then 1 else 0 := by
  have own {lines : List Line} (texts : segment.LeavesTexts unit lines) :
      lines.map (·.text) = segment.members.map (segment.textLeft unit ·.line) ∧
        ∀ line ∈ lines, line.number ≠ 0 := by
    have entries : (lines.map Line.entry).map Prod.snd = _ := congrArg (List.map Prod.snd) texts
    have numbers : (lines.map Line.entry).map Prod.fst = _ := congrArg (List.map Prod.fst) texts
    rw [List.map_map, List.map_map] at entries numbers
    refine ⟨entries, fun line isLine => ?_⟩
    have among : line.number ∈ segment.members.map (·.line.number) :=
      numbers ▸ List.mem_map_of_mem isLine
    obtain ⟨member, isMember, same⟩ := List.mem_map.mp among
    exact same ▸ numbered member isMember
  cases left with
  | alone noSafe texts =>
      obtain ⟨ownTexts, ownNumbers⟩ := own texts
      rw [List.filter_eq_self.mpr (by simpa using ownNumbers), noSafe]
      exact ⟨ownTexts, List.countP_eq_zero.mpr (by simpa using ownNumbers)⟩
  | wrapped safe isHeader texts =>
      obtain ⟨ownTexts, ownNumbers⟩ := own texts
      have noNumber := isHeader.1
      rw [List.filter_cons_of_neg (by simp [noNumber]),
        List.filter_eq_self.mpr (by simpa using ownNumbers), safe,
        List.countP_cons_of_pos (by simp [noNumber]),
        List.countP_eq_zero.mpr (by simpa using ownNumbers)]
      exact ⟨ownTexts, rfl⟩

end LeftAs

/-- Lines with the numbers and texts of pieces that stretches are left as are such pieces. -/
theorem exists_pieces
    {base : Text}
    {unit : IndentUnit}
    {segments : List Segment}
    {pieces : List (List Line)}
    (left : List.Forall₂ (LeftAs base unit) segments pieces)
    {lines : List Line}
    (same : lines.map Line.entry = pieces.flatten.map Line.entry) :
    ∃ parts, lines = parts.flatten ∧ List.Forall₂ (LeftAs base unit) segments parts := by
  induction left generalizing lines with
  | nil =>
      exact ⟨[], List.map_eq_nil_iff.mp same, .nil⟩
  | cons holds _ inductionHypothesis =>
      rw [List.flatten_cons, List.map_append, List.map_eq_append_iff] at same
      obtain ⟨first, rest, rfl, sameFirst, sameRest⟩ := same
      obtain ⟨parts, rfl, partsLeft⟩ := inductionHypothesis sameRest
      exact ⟨first :: parts, rfl, .cons (holds.of_entries sameFirst) partsLeft⟩

/-- Without the headers, a file is left line by line; there is one header for each safe run. -/
theorem of_pieces
    {base : Text}
    {unit : IndentUnit}
    {segments : List Segment}
    {pieces : List (List Line)}
    (left : List.Forall₂ (LeftAs base unit) segments pieces)
    (numbered : ∀ member ∈ segments.flatMap members, member.line.number ≠ 0) :
    (pieces.flatten.filter (·.number != 0)).map (·.text) =
        segments.flatMap (fun segment => segment.members.map (segment.textLeft unit ·.line)) ∧
      pieces.flatten.countP (·.number == 0) = segments.countP (·.isSafe) := by
  induction left with
  | nil =>
      exact ⟨rfl, rfl⟩
  | @cons segment piece segments pieces holds _ inductionHypothesis =>
      rw [List.flatMap_cons, List.forall_mem_append] at numbered
      obtain ⟨ownTexts, ownHeader⟩ := holds.of_numbered numbered.1
      obtain ⟨restTexts, restHeaders⟩ := inductionHypothesis numbered.2
      rw [List.flatten_cons, List.filter_append, List.map_append, List.countP_append,
        List.flatMap_cons, List.countP_cons, ownTexts, ownHeader, restTexts, restHeaders]
      exact ⟨rfl, Nat.add_comm _ _⟩

/-- What is marked in a run was a line of the file. -/
theorem exists_seed_of_mem_run
    {taken : Nat}
    {seeds run : List Tracked}
    (isRun : .run run ∈ cut taken seeds)
    {member : Tracked}
    (isMember : member ∈ run) :
    ∃ seed ∈ seeds, member = seed.markOrphan := by
  fun_induction cut taken seeds with
  | case1 =>
      simp at isRun
  | case2 tracked rest leads reach inductionHypothesis =>
      rcases List.mem_cons.mp isRun with isFirst | inRest
      · rw [Segment.run.inj isFirst] at isMember
        obtain ⟨seed, isSeed, marked⟩ := List.mem_map.mp isMember
        refine ⟨seed, ?_, marked.symm⟩
        exact (List.cons_subset_cons tracked (List.take_subset _ _)) isSeed
      · obtain ⟨seed, isSeed, marked⟩ := inductionHypothesis inRest
        exact ⟨seed, List.mem_cons_of_mem _ isSeed, marked⟩
  | case3 tracked rest stays inductionHypothesis =>
      rcases List.mem_cons.mp isRun with isFirst | inRest
      · cases isFirst
      · obtain ⟨seed, isSeed, marked⟩ := inductionHypothesis inRest
        exact ⟨seed, List.mem_cons_of_mem _ isSeed, marked⟩
  | case4 taken tracked rest inductionHypothesis =>
      obtain ⟨seed, isSeed, marked⟩ := inductionHypothesis isRun
      exact ⟨seed, List.mem_cons_of_mem _ isSeed, marked⟩

end Segment

/-- A member of a stretch shows a line of the file: all that is changed is its category. -/
structure Tracked.Shows
    (line : Line)
    (member : Tracked) :
    Prop where
  number : member.line.number = line.number
  text : member.line.text = line.text
  inString : member.line.inString = line.inString
  isStatement : member.line.isStatement = line.isStatement

theorem Tracked.shows_markOrphan
    (tracked : Tracked) :
    tracked.markOrphan.Shows tracked.line := by
  unfold markOrphan
  split
  · rename_i statement
    refine ⟨rfl, rfl, rfl, ?_⟩
    rw [statement]
    simp only [Line.isStatement, Bool.and_eq_true] at statement ⊢
    exact ⟨statement.1, rfl⟩
  · exact ⟨rfl, rfl, rfl, rfl⟩

namespace Orphan

/-- The stretches of a file show its lines, in order. -/
theorem segmentsOf_shows
    (lines : List Line) :
    List.Forall₂ Tracked.Shows lines ((segmentsOf lines).flatMap (·.members)) := by
  have stretches := Segment.cut_members 0 (lines.map seedLine)
  rw [List.drop_zero, List.forall₂_map_left_iff] at stretches
  refine stretches.imp ?_
  rintro line member (rfl | rfl)
  · exact ⟨rfl, rfl, rfl, rfl⟩
  · exact (seedLine line).shows_markOrphan

/-- What is decided about a stretch. -/
inductive DecidedAs
    (base : Text) :
    Segment → Verdict → Prop
  | keep (tracked : Tracked) :
      DecidedAs base (.kept tracked) (.keep tracked)
  | wrap
      {name : Text}
      {members : List Tracked}
      (safe : isSafeRun members = true)
      (named : base <+: name) :
      DecidedAs base (.run members) (.wrap name members)
  | suppress
      {members : List Tracked}
      (risky : isSafeRun members = false) :
      DecidedAs base (.run members) (.suppress members)

/-- Every stretch is decided about as a run that is safe, a run that is not, or no run. -/
theorem decidedAs_decideAll
    (base : Text)
    (taken : List Text)
    (segments : List Segment) :
    List.Forall₂ (DecidedAs base) segments (decideAll base taken segments) := by
  induction segments generalizing taken with
  | nil =>
      exact .nil
  | cons segment rest inductionHypothesis =>
      cases segment with
      | kept tracked =>
          exact .cons (.keep tracked) (inductionHypothesis taken)
      | run members =>
          rw [decideAll]
          split
          · rename_i safe
            have decided : .wrap (freshName base taken) members ∈
                decideAll base taken (.run members :: rest) := by
              rw [decideAll, if_pos safe]
              exact List.mem_cons_self
            obtain ⟨ending, _, named⟩ := exists_ending_of_wrap decided
            refine .cons (.wrap safe ?_) (inductionHypothesis _)
            rw [named]
            exact List.prefix_append base ending
          · rename_i risky
            exact .cons (.suppress (Bool.eq_false_iff.mpr risky)) (inductionHypothesis taken)

namespace DecidedAs

theorem isWrap_eq
    {base : Text}
    {segment : Segment}
    {verdict : Verdict}
    (decided : DecidedAs base segment verdict) :
    verdict.isWrap = segment.isSafe := by
  cases decided with
  | keep tracked =>
      rfl
  | wrap safe named =>
      exact safe.symm
  | suppress risky =>
      exact risky.symm

/-- A stretch is left as the verdict about it says. -/
theorem leftAs
    {base : Text}
    {segment : Segment}
    {verdict : Verdict}
    (decided : DecidedAs base segment verdict)
    (unit : IndentUnit) :
    segment.LeftAs base unit ((verdict.lines unit).map (·.line)) := by
  cases decided with
  | keep tracked =>
      refine .alone rfl ?_
      simp [Segment.LeavesTexts, Segment.textLeft, Segment.isRisky, Segment.isSafe, Verdict.lines,
        Segment.members, Line.entry]
  | @wrap name members safe named =>
      refine .wrapped safe ⟨rfl, _, name, named, rfl⟩ ?_
      unfold Segment.LeavesTexts
      rw [List.map_map, List.map_map]
      refine List.map_congr_left fun member _ => ?_
      simp only [Function.comp_apply, Line.entry, Segment.textLeft, Segment.isRisky, Segment.isSafe,
        safe, wrapLine]
      cases member.line.text.isBlank <;> cases member.line.inString <;> rfl
  | @suppress members risky =>
      refine .alone risky ?_
      unfold Segment.LeavesTexts
      rw [Verdict.lines, List.map_map, List.map_map]
      refine List.map_congr_left fun member _ => ?_
      simp only [Function.comp_apply, Line.entry, Segment.textLeft, Segment.isRisky, risky,
        suppressLine]
      cases member.line.text.isBlank <;> rfl

/-- The issues of a verdict are about the statements it comments out. -/
theorem issues_eq
    {base : Text}
    {segment : Segment}
    {verdict : Verdict}
    (decided : DecidedAs base segment verdict)
    (orphans : ∀ run, segment = .run run →
      ∀ member ∈ run, isOrphanStatement member = member.line.isStatement) :
    verdict.issues = segment.suppressed.map suppressIssue := by
  cases decided with
  | keep tracked =>
      rfl
  | wrap safe named =>
      simp [Verdict.issues, Segment.suppressed, Segment.isRisky, safe]
  | @suppress members risky =>
      simp only [Verdict.issues, Segment.suppressed, Segment.isRisky, risky, Bool.not_false,
        if_true, Segment.members]
      rw [List.filter_congr (orphans members rfl)]

end DecidedAs

/-- The orphans among the lines of a run are its statements. -/
theorem isOrphanStatement_of_mem_run
    {unit : IndentUnit}
    {lines : List Line}
    (fresh : refreshLines unit lines = lines)
    {run : List Tracked}
    (isRun : .run run ∈ segmentsOf lines)
    {member : Tracked}
    (isMember : member ∈ run) :
    isOrphanStatement member = member.line.isStatement := by
  obtain ⟨seed, isSeed, rfl⟩ := Segment.exists_seed_of_mem_run isRun isMember
  obtain ⟨line, isLine, rfl⟩ := List.mem_map.mp isSeed
  rw [← fresh] at isLine
  rw [(seedLine line).shows_markOrphan.isStatement]
  unfold isOrphanStatement Tracked.markOrphan seedLine
  cases statement : line.isStatement with
  | true =>
      simp [isBlank_eq_false_of_isStatement isLine statement]
  | false =>
      simp [category_ne_orphan_of_mem_refreshLines isLine]

/-- Every stretch of a file is decided about. -/
theorem decidedAs_verdictsOf
    (wrapperName : String)
    (lines : List Line) :
    List.Forall₂ (DecidedAs (baseName wrapperName)) (segmentsOf lines)
      (verdictsOf wrapperName lines) :=
  decidedAs_decideAll _ _ _

/-- The resolved lines are what the stretches are left as. -/
theorem exists_pieces_resolvedLines
    (wrapperName : String)
    (unit : IndentUnit)
    (lines : List Line) :
    ∃ pieces, resolvedLines wrapperName unit lines = pieces.flatten ∧
      List.Forall₂ (Segment.LeftAs (baseName wrapperName) unit) (segmentsOf lines) pieces := by
  refine ⟨(verdictsOf wrapperName lines).map fun verdict => (verdict.lines unit).map (·.line),
    ?_, ?_⟩
  · rw [resolvedLines, List.map_flatMap, List.flatMap_def]
  · rw [List.forall₂_map_right_iff]
    exact (decidedAs_verdictsOf wrapperName lines).imp fun _ _ decided => decided.leftAs unit

/-- As many verdicts wrap as runs are safe. -/
theorem countP_isWrap_verdictsOf
    (wrapperName : String)
    (lines : List Line) :
    (verdictsOf wrapperName lines).countP (·.isWrap) =
      (segmentsOf lines).countP (·.isSafe) := by
  have same := map_eq_of_forall₂
    ((decidedAs_verdictsOf wrapperName lines).imp fun _ _ decided => decided.isWrap_eq)
  have counted := congrArg (List.countP id) same
  rwa [List.countP_map, List.countP_map] at counted

/-- The issues of the verdicts are about the statements they comment out. -/
theorem issues_verdictsOf
    (wrapperName : String)
    {unit : IndentUnit}
    {lines : List Line}
    (fresh : refreshLines unit lines = lines) :
    (verdictsOf wrapperName lines).reverse.flatMap (·.issues) =
      (segmentsOf lines).reverse.flatMap fun segment => segment.suppressed.map suppressIssue := by
  have orphans : ∀ segment ∈ segmentsOf lines, ∀ run, segment = .run run →
      ∀ member ∈ run, isOrphanStatement member = member.line.isStatement := by
    rintro segment isSegment run rfl member isMember
    exact isOrphanStatement_of_mem_run fresh isSegment isMember
  have decided := (List.forall₂_and_left _ _).mpr
    ⟨orphans, decidedAs_verdictsOf wrapperName lines⟩
  have same := map_eq_of_forall₂
    (decided.imp fun _ _ ownOrphans => ownOrphans.2.issues_eq ownOrphans.1)
  rw [List.flatMap_def, List.flatMap_def, List.map_reverse, List.map_reverse, same]

/-- Without a run every verdict keeps its line. -/
theorem exists_keep_of_no_run
    {wrapperName : String}
    {lines : List Line}
    (noRun : (verdictsOf wrapperName lines).any (·.isRun) = false)
    {verdict : Verdict}
    (decided : verdict ∈ verdictsOf wrapperName lines) :
    ∃ tracked, verdict = .keep tracked := by
  have noneRuns := List.any_eq_false.mp noRun verdict decided
  cases verdict with
  | keep tracked =>
      exact ⟨tracked, rfl⟩
  | wrap name members | suppress members =>
      exact absurd rfl noneRuns

/-- Without a run the resolved lines are the lines. -/
theorem entries_resolvedLines_of_no_run
    {wrapperName : String}
    {lines : List Line}
    (noRun : (verdictsOf wrapperName lines).any (·.isRun) = false)
    (unit : IndentUnit) :
    (resolvedLines wrapperName unit lines).map Line.entry = lines.map Line.entry := by
  have kept : (verdictsOf wrapperName lines).flatMap (·.lines unit) =
      (verdictsOf wrapperName lines).flatMap Verdict.members := by
    rw [List.flatMap_def, List.flatMap_def]
    refine congrArg List.flatten (List.map_congr_left fun verdict decided => ?_)
    obtain ⟨tracked, rfl⟩ := exists_keep_of_no_run noRun decided
    rfl
  have same := map_eq_of_forall₂
    ((verdictsOf_members wrapperName lines).imp fun line member shows =>
      show member.line.entry = line.entry from Prod.ext shows.1 shows.2)
  rw [resolvedLines, kept, List.map_map]
  exact same

end Orphan

namespace ReferenceSearch

theorem kind_of_mem_tokens
    {active : List (Text × Nat)}
    {line : Line}
    {code : Text}
    {reported : List Text}
    {found : List Token}
    {issue : Issue}
    (member : issue ∈ (tokens active line code reported found).2) :
    issue.kind = .suppressedReference := by
  induction found generalizing reported with
  | nil =>
      cases member
  | cons token rest inductionHypothesis =>
      rw [tokens] at member
      split at member
      · split at member
        · rcases List.mem_cons.mp member with rfl | inRest
          · rfl
          · exact inductionHypothesis inRest
        · exact inductionHypothesis member
      · exact inductionHypothesis member

theorem kind_of_mem_lines
    {live : List Text}
    {suppressed : List (Text × Nat)}
    {search : ReferenceSearch}
    {tracked : List Tracked}
    {issue : Issue}
    (member : issue ∈ lines live suppressed search tracked) :
    issue.kind = .suppressedReference := by
  induction tracked generalizing search with
  | nil =>
      cases member
  | cons first rest inductionHypothesis =>
      rw [lines] at member
      split at member
      · exact inductionHypothesis member
      · split at member
        · exact inductionHypothesis member
        · rcases List.mem_append.mp member with own | inRest
          · exact kind_of_mem_tokens own
          · exact inductionHypothesis inRest

end ReferenceSearch

/-- The issue about a use of a suppressed name is of no other kind. -/
theorem kind_of_mem_referenceIssues
    {suppressed : List (Text × Nat)}
    {tracked : List Tracked}
    {issue : Issue}
    (member : issue ∈ referenceIssues suppressed tracked) :
    issue.kind = .suppressedReference := by
  unfold referenceIssues at member
  split at member
  · cases member
  · exact ReferenceSearch.kind_of_mem_lines member

namespace Source

/-- Orphan repair leaves the resolved lines, as far as numbers and texts tell. -/
theorem Consistent.entries_orphanStage
    {source : Source}
    (consistent : source.Consistent)
    (wrapperName : String) :
    (source.orphanStage wrapperName).lines.map Line.entry =
      (Orphan.resolvedLines wrapperName source.unit source.lines).map Line.entry := by
  cases runs : (Orphan.verdictsOf wrapperName source.lines).any (·.isRun) with
  | false =>
      rw [(orphanStage_of_no_run runs).lines, Orphan.entries_resolvedLines_of_no_run runs]
  | true =>
      rw [(orphanStage_of_run consistent.settled runs).lines]
      exact refreshLines_view (fun identity => (identity.number, identity.text)) _ _

/-- Without a run there is nothing to wrap and nothing to comment out. -/
theorem nothing_of_no_run
    {wrapperName : String}
    {lines : List Line}
    (noRun : (Orphan.verdictsOf wrapperName lines).any (·.isRun) = false) :
    (Orphan.verdictsOf wrapperName lines).countP (·.isWrap) = 0 ∧
      (Orphan.verdictsOf wrapperName lines).reverse.flatMap (·.issues) = [] := by
  constructor
  · rw [List.countP_eq_zero]
    intro verdict decided
    obtain ⟨tracked, rfl⟩ := Orphan.exists_keep_of_no_run noRun decided
    exact Bool.false_ne_true
  · rw [List.flatMap_eq_nil_iff]
    intro verdict decided
    obtain ⟨tracked, rfl⟩ := Orphan.exists_keep_of_no_run noRun (List.mem_reverse.mp decided)
    rfl

/-- Orphan repair counts its wrapped runs and its suppressed statements and nothing else. -/
theorem Consistent.counted_orphanStage
    {source : Source}
    (consistent : source.Consistent)
    (wrapperName : String)
    (name : String) :
    (source.orphanStage wrapperName).counted name =
      source.counted name +
        (if name = Orphan.wrapCounter then
          ((Orphan.segmentsOf source.lines).countP (·.isSafe) : Int)
        else 0) +
        if name = Orphan.suppressCounter then
          (((Orphan.segmentsOf source.lines).flatMap (·.suppressed)).length : Int)
        else 0 := by
  have wrapped := Orphan.countP_isWrap_verdictsOf wrapperName source.lines
  have reported :
      ((Orphan.verdictsOf wrapperName source.lines).reverse.flatMap (·.issues)).length =
        ((Orphan.segmentsOf source.lines).flatMap (·.suppressed)).length := by
    rw [Orphan.issues_verdictsOf wrapperName consistent.fresh]
    simp [List.length_flatMap, List.map_reverse, List.sum_reverse]
  unfold counted
  rw [← wrapped, ← reported]
  cases runs : (Orphan.verdictsOf wrapperName source.lines).any (·.isRun) with
  | false =>
      obtain ⟨noWrap, noIssue⟩ := nothing_of_no_run runs
      rw [(orphanStage_of_no_run runs).counters, noWrap, noIssue, Tally.count_register]
      simp
  | true =>
      rw [(orphanStage_of_run consistent.settled runs).counters, Tally.count_add, Tally.count_add,
        Tally.count_register]

/-- Orphan repair adds issues about earlier markers, about what it suppresses, and about names. -/
theorem Consistent.issues_orphanStage
    {source : Source}
    (consistent : source.Consistent)
    (wrapperName : String) :
    ∃ references,
      (source.orphanStage wrapperName).report.issues =
        source.report.issues ++ seedIssues source.lines ++
          ((Orphan.segmentsOf source.lines).reverse.flatMap fun segment =>
            segment.suppressed.map Orphan.suppressIssue) ++
          references ∧
      ∀ issue ∈ references, issue.kind = .suppressedReference := by
  rw [← Orphan.issues_verdictsOf wrapperName consistent.fresh]
  cases runs : (Orphan.verdictsOf wrapperName source.lines).any (·.isRun) with
  | false =>
      rw [(nothing_of_no_run runs).2, List.append_nil]
      exact ⟨_, (orphanStage_of_no_run runs).issues, fun _ => kind_of_mem_referenceIssues⟩
  | true =>
      exact ⟨_, (orphanStage_of_run consistent.settled runs).issues,
        fun _ => kind_of_mem_referenceIssues⟩

/-- What is commented out is recovered as it was. -/
theorem recover_textLeft
    {segment : Segment}
    (risky : segment.isRisky = true)
    {line : Line}
    (visible : line.text.isBlank = false)
    (unit : IndentUnit) :
    Marker.recover? (segment.textLeft unit line) = some line.text := by
  have marked : segment.textLeft unit line = Marker.suppressed ++ line.text := by
    simp [Segment.textLeft, visible, risky]
  have starts : Text.startsWith (Marker.suppressed ++ line.text) Marker.suppressed = true :=
    List.isPrefixOf_iff_prefix.mpr (List.prefix_append _ _)
  rw [marked, Marker.recover?, Text.afterHead?, if_pos starts, List.drop_left]

/--
Orphan repair of a file that was classified, uplifted and repaired leaves its
stretches in their order, a safe run under the header of a wrapper, and every
line of theirs with one text: a line that is not blank behind a suppression
marker in any other run, one level deeper in a safe run unless it begins inside
of a string, and as it was everywhere else.  Without the headers, which alone
have no number, these texts are the file, and the marked ones are recovered.  It
counts the safe runs, of which each has its header, and the statements it
comments out, each of which it reports; what else it reports is about earlier
markers or about names.
-/
theorem orphan_repair_leaves_stretches_in_place
    (style : IndentUnit.Style)
    (width : Int)
    (rules : List UpliftRule)
    (path : String)
    (content : Text)
    (wrapperName : String) :
    let before :=
      (((ofContent path content).classifyStage style width).upliftStage rules).indentStage
    let after := before.orphanStage wrapperName
    let segments := Orphan.segmentsOf before.lines
    List.Forall₂ Tracked.Shows before.lines (segments.flatMap (·.members)) ∧
      (∃ pieces, after.lines = pieces.flatten ∧
        List.Forall₂ (Segment.LeftAs (Orphan.baseName wrapperName) before.unit) segments pieces) ∧
      ((after.lines.filter (·.number != 0)).map (·.text) =
        segments.flatMap fun segment =>
          segment.members.map (segment.textLeft before.unit ·.line)) ∧
      (∀ segment : Segment, segment.isRisky = true → ∀ line : Line, line.text.isBlank = false →
        Marker.recover? (segment.textLeft before.unit line) = some line.text) ∧
      after.lines.countP (·.number == 0) = segments.countP (·.isSafe) ∧
      (∀ name,
        after.counted name =
          before.counted name +
            (if name = Orphan.wrapCounter then (segments.countP (·.isSafe) : Int) else 0) +
            if name = Orphan.suppressCounter then
              ((segments.flatMap (·.suppressed)).length : Int)
            else 0) ∧
      ∃ references,
        after.report.issues =
          before.report.issues ++ seedIssues before.lines ++
            (segments.reverse.flatMap fun segment =>
              segment.suppressed.map Orphan.suppressIssue) ++
            references ∧
        ∀ issue ∈ references, issue.kind = .suppressedReference := by
  intro before after segments
  have consistent : before.Consistent :=
    ((classifyStage_consistent style width _).upliftStage rules).indentStage
  have carried : Carried (ofContent path content).lines before.lines before.report.counters :=
    (((Carried.ofContent path content []).of_continues
      (refreshLines_continues _ _)).upliftStage rules).indentStage
  have numbered := carried.number_ne_zero fun _ => number_ne_zero_of_mem_ofContent
  have shows := Orphan.segmentsOf_shows before.lines
  have membersNumbered : ∀ member ∈ segments.flatMap (·.members), member.line.number ≠ 0 := by
    intro member isMember
    obtain ⟨line, isLine, showsLine⟩ := exists_left_of_forall₂ shows isMember
    rw [showsLine.number]
    exact numbered line isLine
  obtain ⟨resolved, isResolved, resolvedLeft⟩ :=
    Orphan.exists_pieces_resolvedLines wrapperName before.unit before.lines
  have entries := consistent.entries_orphanStage wrapperName
  rw [isResolved] at entries
  obtain ⟨pieces, isAfter, left⟩ := Segment.exists_pieces resolvedLeft entries
  obtain ⟨texts, headers⟩ := Segment.of_pieces left membersNumbered
  rw [← isAfter] at texts headers
  exact ⟨shows, ⟨pieces, isAfter, left⟩, texts,
    fun segment risky line visible => recover_textLeft risky visible before.unit, headers,
    consistent.counted_orphanStage wrapperName, consistent.issues_orphanStage wrapperName⟩

/-- A blank line between two statements that are commented out is not counted with them. -/
theorem blank_line_of_suppressed_run_is_not_counted :
    let before :=
      (((ofContent "x.gd" "get_tree().quit()\n\nprint(1)\n".toList).classifyStage
        .detected 4).upliftStage (UpliftRule.enabled [])).indentStage
    let after := before.orphanStage ""
    let riskyLines :=
      ((Orphan.segmentsOf before.lines).filter (·.isRisky)).flatMap (·.members)
    (riskyLines.countP fun member =>
        !member.line.continues && member.line.category != .comment) = 3 ∧
      after.counted Orphan.suppressCounter = before.counted Orphan.suppressCounter + 2 := by
  decide +kernel

end Source

end ScriptUplift
