import Mathlib.Tactic.Common
import ScriptUplift.Proofs.CommentedOut
import ScriptUplift.Proofs.FirstUses

namespace ScriptUplift

/-!
# Lines that stand for declarations

Orphan repair remembers of every line it leaves which name it declares: a
statement that is commented out the name it binds, a marker the name behind it,
and no other line any.  All of these lines are comments.  The stage as a whole,
with a run to resolve or without, leaves the resolved lines, remembers the names
in one order, and reports in one order.
-/

namespace Orphan

/-- Lines none of which leads into a run are kept one by one. -/
theorem verdictsOf_of_no_run
    {wrapperName : String}
    {lines : List Line}
    (noRun : (verdictsOf wrapperName lines).any (·.isRun) = false) :
    verdictsOf wrapperName lines = lines.map fun line => .keep (seedLine line) := by
  rw [any_isRun_verdictsOf, List.any_eq_false] at noRun
  have kept (base : Text) (taken : List Text) :
      decideAll base taken (segmentsOf lines) = lines.map fun line => .keep (seedLine line) := by
    unfold segmentsOf
    induction lines with
    | nil =>
        rfl
    | cons line rest inductionHypothesis =>
        obtain ⟨own, others⟩ := List.forall_mem_cons.mp noRun
        rw [List.map_cons, Segment.cut, if_neg (show ¬(seedLine line).line.leadsIn = true from own),
          decideAll, inductionHypothesis others, List.map_cons]
  exact kept _ _

end Orphan

namespace Tracked

/-- Track lines by the names that known ones stand for. -/
def takenBack
    (lines : List Line)
    (known : List Tracked) :
    List Tracked :=
  lines.zipWith (fun line tracked => { tracked with line := line }) known

/-- As many lines as known ones keep their names. -/
theorem map_takenBack
    {lines : List Line}
    {known : List Tracked}
    (sameLength : lines.length = known.length) :
    (takenBack lines known).map (·.line) = lines ∧
      (takenBack lines known).map (·.declares) = known.map (·.declares) := by
  induction lines generalizing known with
  | nil =>
      obtain rfl := List.length_eq_zero_iff.mp sameLength.symm
      exact ⟨rfl, rfl⟩
  | cons line rest inductionHypothesis =>
      cases known with
      | nil =>
          cases sameLength
      | cons tracked others =>
          obtain ⟨sameLines, sameNames⟩ := inductionHypothesis (Nat.succ.inj sameLength)
          exact ⟨congrArg (line :: ·) sameLines, congrArg (tracked.declares :: ·) sameNames⟩

/-- Lines that are tracked as themselves stay tracked. -/
theorem takenBack_map_seedLine
    (lines : List Line) :
    takenBack lines (lines.map seedLine) = lines.map seedLine := by
  induction lines with
  | nil =>
      rfl
  | cons line rest inductionHypothesis =>
      exact congrArg (seedLine line :: ·) inductionHypothesis

end Tracked

namespace Source

/-- The lines orphan repair leaves, with the names they declare. -/
def trackedBehind
    (wrapperName : String)
    (source : Source) :
    List Tracked :=
  (source.orphanStage wrapperName).track
    ((Orphan.verdictsOf wrapperName source.lines).flatMap (·.lines source.unit))

/-- What orphan repair leaves of a file, with a run in it or without. -/
structure LeftByOrphanStage
    (wrapperName : String)
    (source after : Source) :
    Prop where
  lines :
    after.lines =
      refreshLines source.unit (Orphan.resolvedLines wrapperName source.unit source.lines)
  suppressed :
    after.suppressed =
      rememberNames (rememberNames source.suppressed (source.lines.map seedLine))
        ((Orphan.verdictsOf wrapperName source.lines).reverse.flatMap (·.declarations))
  issues :
    after.report.issues =
      source.report.issues ++ seedIssues source.lines ++
        (Orphan.verdictsOf wrapperName source.lines).reverse.flatMap (·.issues) ++
        referenceIssues after.suppressed (source.trackedBehind wrapperName)

theorem Consistent.leftByOrphanStage
    {source : Source}
    (consistent : source.Consistent)
    (wrapperName : String) :
    source.LeftByOrphanStage wrapperName (source.orphanStage wrapperName) := by
  cases runs : (Orphan.verdictsOf wrapperName source.lines).any (·.isRun) with
  | false =>
      have kept := Orphan.verdictsOf_of_no_run runs
      have seeds : (Orphan.verdictsOf wrapperName source.lines).flatMap (·.lines source.unit) =
          source.lines.map seedLine := by
        rw [kept, List.flatMap_map]
        exact List.map_eq_flatMap.symm
      have texts : Orphan.resolvedLines wrapperName source.unit source.lines = source.lines := by
        rw [Orphan.resolvedLines, seeds, List.map_map]
        exact List.map_id _
      have nothing : (Orphan.verdictsOf wrapperName source.lines).reverse.flatMap
          (·.declarations) = [] := by
        rw [kept, List.flatMap_eq_nil_iff]
        intro verdict isVerdict
        obtain ⟨line, _, rfl⟩ := List.mem_map.mp (List.mem_reverse.mp isVerdict)
        rfl
      have left := orphanStage_of_no_run runs
      have tracked : source.trackedBehind wrapperName = source.lines.map seedLine := by
        rw [trackedBehind, track, left.lines, seeds]
        exact Tracked.takenBack_map_seedLine source.lines
      refine ⟨?_, ?_, ?_⟩
      · rw [left.lines, texts, consistent.fresh]
      · rw [nothing]
        exact left.suppressed
      · rw [tracked, (nothing_of_no_run runs).2, List.append_nil]
        exact left.issues
  | true =>
      have left := orphanStage_of_run consistent.settled runs
      exact ⟨left.lines, left.suppressed, left.issues⟩

end Source

namespace Segment

/--
The name a line of a stretch stands for: a statement that is commented out for
the one it binds, any other line for the one behind its marker.
-/
def declared?
    (segment : Segment)
    (line : Line) :
    Option Text :=
  if segment.isRisky && line.isStatement then boundName? line.text
  else (Marker.found? line).bind (boundName? ·.payload)

/-- What a stretch is left as, with the names its lines stand for. -/
structure TrackedAs
    (base : Text)
    (unit : IndentUnit)
    (segment : Segment)
    (piece : List Tracked) :
    Prop where
  lines : segment.LeftAs base unit (piece.map (·.line))
  names :
    piece.map (·.declares) =
      (if segment.isSafe then [none] else []) ++ segment.members.map (segment.declared? ·.line)

end Segment

/-- A member of a stretch stands for the name behind its marker, if it has one. -/
def Tracked.IsSeed
    (tracked : Tracked) :
    Prop :=
  tracked.declares = (Marker.found? tracked.line).bind (boundName? ·.payload)

theorem Marker.found?_of_isStatement
    {line : Line}
    (statement : line.isStatement = true) :
    found? line = none := by
  have noTrivia := Line.isTrivia_of_isStatement statement
  rw [found?, if_neg]
  intro comment
  rw [comment] at noTrivia
  cases noTrivia

theorem isSeed_markOrphan
    (line : Line) :
    (seedLine line).markOrphan.IsSeed := by
  unfold Tracked.IsSeed Tracked.markOrphan
  split
  · rename_i statement
    have unmarked : Marker.found? (seedLine line).line = none :=
      Marker.found?_of_isStatement statement
    have marked : Marker.found? { (seedLine line).line with category := .orphan } = none := by
      rw [Marker.found?, if_neg]
      exact Category.noConfusion
    change (Marker.found? (seedLine line).line).bind _ = _
    rw [unmarked, marked]
  · rfl

namespace Orphan

theorem isSeed_of_mem_segmentsOf
    {lines : List Line}
    {segment : Segment}
    (isSegment : segment ∈ segmentsOf lines)
    {member : Tracked}
    (isMember : member ∈ segment.members) :
    member.IsSeed := by
  have stretches := Segment.cut_members 0 (lines.map seedLine)
  obtain ⟨seed, isSeed, shape⟩ := exists_left_of_forall₂ stretches
    (List.mem_flatMap.mpr ⟨segment, isSegment, isMember⟩)
  obtain ⟨line, _, rfl⟩ := List.mem_map.mp isSeed
  rcases shape with rfl | rfl
  · rfl
  · exact isSeed_markOrphan line

/-- The names the lines of a stretch stand for once it is decided about. -/
theorem DecidedAs.names_eq
    {base : Text}
    {segment : Segment}
    {verdict : Verdict}
    (decided : DecidedAs base segment verdict)
    (unit : IndentUnit)
    (seeds : ∀ member ∈ segment.members, member.IsSeed)
    (orphans : ∀ run, segment = .run run →
      ∀ member ∈ run, isOrphanStatement member = member.line.isStatement) :
    (verdict.lines unit).map (·.declares) =
      (if segment.isSafe then [none] else []) ++
        segment.members.map (segment.declared? ·.line) := by
  cases decided with
  | keep tracked =>
      have own : tracked.declares = _ := seeds tracked List.mem_cons_self
      simpa [Verdict.lines, Segment.isSafe, Segment.members, Segment.declared?,
        Segment.isRisky] using own
  | @wrap name members safe named =>
      have kept : members.map (fun member => (wrapLine unit member).declares) =
          members.map (fun member => (Marker.found? member.line).bind (boundName? ·.payload)) := by
        refine List.map_congr_left fun member isMember => Eq.trans ?_ (seeds member isMember)
        unfold wrapLine
        dsimp only
        split <;> rfl
      simpa [Verdict.lines, Segment.isSafe, Segment.members, Segment.declared?,
        Segment.isRisky, safe] using kept
  | @suppress members risky =>
      have hidden : members.map (fun member => (suppressLine member).declares) =
          members.map ((Segment.run members).declared? ·.line) := by
        refine List.map_congr_left fun member isMember => ?_
        have own : member.declares = _ := seeds member isMember
        have orphan := orphans members rfl member isMember
        unfold suppressLine Segment.declared?
        rw [Segment.isRisky, risky, Bool.not_false, Bool.true_and, ← orphan]
        split
        · rename_i blank
          have noOrphan : isOrphanStatement member = false := by
            simp [isOrphanStatement, blank]
          rw [noOrphan, own]
          rfl
        · dsimp only
          split
          · rename_i statement
            rw [orphan] at statement
            rw [own, Marker.found?_of_isStatement statement]
            exact Option.or_none
          · exact own
      simpa [Verdict.lines, Segment.isSafe, Segment.members, risky] using hidden

/-- Lines with the numbers and texts that verdicts leave are tracked stretch by stretch. -/
theorem exists_pieces_tracked
    {base : Text}
    {unit : IndentUnit}
    {segments : List Segment}
    {verdicts : List Verdict}
    (decided : List.Forall₂ (DecidedAs base) segments verdicts)
    (seeds : ∀ segment ∈ segments, ∀ member ∈ segment.members, member.IsSeed)
    (orphans : ∀ run, .run run ∈ segments →
      ∀ member ∈ run, isOrphanStatement member = member.line.isStatement)
    {lines : List Line}
    (same : lines.map Line.entry = (verdicts.flatMap (·.lines unit)).map (·.line.entry)) :
    ∃ pieces,
      Tracked.takenBack lines (verdicts.flatMap (·.lines unit)) = pieces.flatten ∧
        List.Forall₂ (Segment.TrackedAs base unit) segments pieces := by
  induction decided generalizing lines with
  | nil =>
      obtain rfl := List.map_eq_nil_iff.mp same
      exact ⟨[], rfl, .nil⟩
  | @cons segment verdict segments verdicts own _ inductionHypothesis =>
      rw [List.flatMap_cons, List.map_append, List.map_eq_append_iff] at same
      obtain ⟨first, rest, rfl, sameFirst, sameRest⟩ := same
      obtain ⟨ownSeeds, otherSeeds⟩ := List.forall_mem_cons.mp seeds
      obtain ⟨pieces, restShape, tracked⟩ := inductionHypothesis otherSeeds
        (fun run isRun => orphans run (List.mem_cons_of_mem _ isRun)) sameRest
      have sameLength : first.length = (verdict.lines unit).length := by
        simpa using congrArg List.length sameFirst
      obtain ⟨ownLines, ownNames⟩ := Tracked.map_takenBack sameLength
      refine ⟨Tracked.takenBack first (verdict.lines unit) :: pieces, ?_, .cons ⟨?_, ?_⟩ tracked⟩
      · rw [List.flatMap_cons, Tracked.takenBack, List.zipWith_append sameLength]
        exact congrArg _ restShape
      · rw [ownLines]
        refine (own.leftAs unit).of_entries (sameFirst.trans ?_)
        rw [List.map_map]
        rfl
      · rw [ownNames]
        exact own.names_eq unit ownSeeds fun run isRun =>
          orphans run (isRun ▸ List.mem_cons_self)

end Orphan

namespace Source

/-- The file behind orphan repair is tracked line by line. -/
theorem Consistent.map_line_trackedBehind
    {source : Source}
    (consistent : source.Consistent)
    (wrapperName : String) :
    (source.trackedBehind wrapperName).map (·.line) = (source.orphanStage wrapperName).lines := by
  have entries := congrArg List.length (consistent.entries_orphanStage wrapperName)
  rw [List.length_map, List.length_map, Orphan.resolvedLines, List.length_map] at entries
  exact (Tracked.map_takenBack entries).1

/-- The file behind orphan repair is tracked stretch by stretch. -/
theorem Consistent.exists_pieces_trackedBehind
    {source : Source}
    (consistent : source.Consistent)
    (wrapperName : String) :
    ∃ pieces, source.trackedBehind wrapperName = pieces.flatten ∧
      List.Forall₂ (Segment.TrackedAs (Orphan.baseName wrapperName) source.unit)
        (Orphan.segmentsOf source.lines) pieces := by
  refine Orphan.exists_pieces_tracked (Orphan.decidedAs_verdictsOf wrapperName source.lines)
    (fun segment isSegment member => Orphan.isSeed_of_mem_segmentsOf isSegment)
    (fun run isRun member => Orphan.isOrphanStatement_of_mem_run consistent.fresh isRun) ?_
  rw [consistent.entries_orphanStage, Orphan.resolvedLines, List.map_map]
  rfl

end Source

/-- A line that is tracked where it is read stands below what the lines above it leave open. -/
theorem Tracked.exists_of_mem_takenBack
    {carry : Carry}
    {context : Context}
    {known : List Tracked}
    {tracked : Tracked}
    (member : tracked ∈ takenBack (readLines carry context (known.map (·.line))) known) :
    ∃ above origin below around opens,
      known = above ++ origin :: below ∧
        tracked =
          { origin with
            line :=
              origin.line.readIn (carry.through (above.map (·.line.text))) around opens } := by
  induction known generalizing carry context with
  | nil =>
      cases member
  | cons first rest inductionHypothesis =>
      rw [List.map_cons, readLines_cons] at member
      rcases List.mem_cons.mp member with rfl | inRest
      · exact ⟨[], first, rest, _, _, rfl, rfl⟩
      · obtain ⟨above, origin, below, around, opens, rfl, shape⟩ := inductionHypothesis inRest
        exact ⟨first :: above, origin, below, around, opens, rfl, shape⟩

namespace Source

/-- Every line that stands for a declaration is a comment. -/
theorem Consistent.comment_of_declares
    {source : Source}
    (consistent : source.Consistent)
    {wrapperName : String}
    (named : isIdentifier (Orphan.baseName wrapperName) = true)
    {tracked : Tracked}
    (member : tracked ∈ source.trackedBehind wrapperName)
    (declares : tracked.declares.isSome = true) :
    tracked.line.category = .comment ∧ tracked.line.continues = false := by
  have decides := Orphan.decides_verdictsOf named source.lines
  have lines := (consistent.leftByOrphanStage wrapperName).lines
  have isMember : tracked ∈ Tracked.takenBack
      (readLines .neutral { unit := source.unit }
        (((Orphan.verdictsOf wrapperName source.lines).flatMap (·.lines source.unit)).map
          (·.line)))
      ((Orphan.verdictsOf wrapperName source.lines).flatMap (·.lines source.unit)) := by
    change tracked ∈ Tracked.takenBack (source.orphanStage wrapperName).lines _ at member
    rw [lines] at member
    exact member
  obtain ⟨above, origin, below, around, opens, shape, rfl⟩ :=
    Tracked.exists_of_mem_takenBack isMember
  obtain ⟨closed, isComment⟩ :=
    decides.isComment_of_declares consistent.fresh shape declares
  rw [closed]
  have category : (origin.line.readIn .neutral around opens).category =
      (classify around origin.line.text).1 := rfl
  rw [category, isComment.classify_eq]
  exact ⟨rfl, rfl⟩

end Source

end ScriptUplift
