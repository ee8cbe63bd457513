import Mathlib.Data.List.Pairwise
import Mathlib.Data.List.Range
import Mathlib.Tactic.Common
import ScriptUplift.Proofs.DeclaringLines

namespace ScriptUplift

/-!
# The recorded line of a declaration

The lines of a file are numbered from the top, and stay so: a rule that splits a
line gives its number to both halves, and repair moves lines sideways only.  Of
the lines that declare a suppressed name, markers are remembered from the top
and statements from the last run to the first.  The line that is recorded is
therefore the topmost one exactly when no statement above it is commented out
that declares the name.
-/

/-- Lines that are numbered from the top. -/
def Numbered
    (lines : List Line) :
    Prop :=
  (lines.map (·.number)).Pairwise (· ≤ ·)

namespace Numbered

theorem ofContent
    (path : String)
    (content : Text) :
    Numbered (Source.ofContent path content).lines := by
  rw [Numbered, Source.ofContent_lines, Source.numbers_numberLines]
  exact List.pairwise_le_range' _

theorem of_continues
    {before after : List Line}
    (numbered : Numbered before)
    (continued : List.Forall₂ Line.Continues before after) :
    Numbered after := by
  rw [Numbered, numbers_of_continues continued]
  exact numbered

/-- Lines that are replaced by lines of their number stay numbered. -/
theorem flatMap
    {lines : List Line}
    {results : List (List Line × Option Nat)}
    (numbered : Numbered lines)
    (replaced : List.Forall₂ (fun line result => ∀ out ∈ result.1, out.number = line.number)
      lines results) :
    Numbered (results.flatMap Prod.fst) := by
  induction replaced with
  | nil =>
      exact List.Pairwise.nil
  | @cons line result lines results own others inductionHypothesis =>
      obtain ⟨above, below⟩ := List.pairwise_cons.mp numbered
      rw [Numbered, List.flatMap_cons, List.map_append, List.pairwise_append]
      refine ⟨?_, inductionHypothesis below, ?_⟩
      · rw [List.pairwise_map]
        refine List.pairwise_of_forall_mem_list ?_
        intro first isFirst second isSecond
        rw [own first isFirst, own second isSecond]
      · intro first isFirst second isSecond
        obtain ⟨out, isOut, rfl⟩ := List.mem_map.mp isFirst
        obtain ⟨later, isLater, rfl⟩ := List.mem_map.mp isSecond
        obtain ⟨among, isAmong, within⟩ := List.mem_flatMap.mp isLater
        obtain ⟨origin, isOrigin, same⟩ := exists_left_of_forall₂ others isAmong
        rw [own out isOut, same later within]
        exact above _ (List.mem_map_of_mem isOrigin)

theorem applyEverywhere
    {source : Source}
    (numbered : Numbered source.lines)
    (rule : UpliftRule) :
    Numbered (source.applyEverywhere rule).lines := by
  rcases source.applyEverywhere_cases rule with ⟨_, same⟩ | ⟨total, _, changed⟩
  · rw [same]
    exact numbered
  · rw [changed]
    refine of_continues (numbered.flatMap ?_) (refreshLines_continues _ _)
    refine (applyToEach_forall₂ rule [] source.lines).imp ?_
    rintro line result ⟨above, rfl⟩ out isOut
    exact number_of_mem_applyToLine isOut

theorem upliftStage
    {source : Source}
    (numbered : Numbered source.lines)
    (rules : List UpliftRule) :
    Numbered (source.upliftStage rules).lines := by
  unfold Source.upliftStage
  have registered : Numbered (source.register (rules.map (·.name))).lines := numbered
  generalize source.register (rules.map (·.name)) = current at registered
  induction rules generalizing current with
  | nil =>
      exact registered
  | cons rule rest inductionHypothesis =>
      exact inductionHypothesis _ (registered.applyEverywhere rule)

theorem indentStage
    {source : Source}
    (consistent : source.Consistent)
    (numbered : Numbered source.lines) :
    Numbered source.indentStage.lines := by
  rw [Source.lines_indentStage consistent]
  exact (numbered.of_continues (Indent.repairLines_sameCode _ _ _ _)).of_continues
    (refreshLines_continues _ _)

end Numbered

/-- A file about which no stage has reported anything. -/
structure Source.Unreported
    (source : Source) :
    Prop where
  suppressed : source.suppressed = []
  issues : source.report.issues = []

namespace Source.Unreported

theorem applyEverywhere
    {source : Source}
    (unreported : source.Unreported)
    (rule : UpliftRule) :
    (source.applyEverywhere rule).Unreported := by
  rcases source.applyEverywhere_cases rule with ⟨_, same⟩ | ⟨total, _, changed⟩
  · rw [same]
    exact unreported
  · rw [changed]
    exact ⟨unreported.suppressed, unreported.issues⟩

theorem upliftStage
    {source : Source}
    (unreported : source.Unreported)
    (rules : List UpliftRule) :
    (source.upliftStage rules).Unreported := by
  unfold Source.upliftStage
  have registered : (source.register (rules.map (·.name))).Unreported :=
    ⟨unreported.suppressed, unreported.issues⟩
  generalize source.register (rules.map (·.name)) = current at registered
  induction rules generalizing current with
  | nil =>
      exact registered
  | cons rule rest inductionHypothesis =>
      exact inductionHypothesis _ (registered.applyEverywhere rule)

theorem indentStage
    {source : Source}
    (unreported : source.Unreported) :
    source.indentStage.Unreported := by
  unfold Source.indentStage
  dsimp only
  split <;> exact ⟨unreported.suppressed, unreported.issues⟩

end Source.Unreported

/-- The lines whose marker hides a declaration of a name. -/
def markersOf
    (name : Text)
    (lines : List Line) :
    List Line :=
  lines.filter fun line => (seedLine line).declares == some name

/-- The statements of a stretch that are commented out and declare a name. -/
def Segment.hides
    (name : Text)
    (segment : Segment) :
    List Line :=
  (segment.suppressed.map (·.line)).filter fun line => boundName? line.text == some name

/-- The first match of a search is the first element that is kept. -/
theorem map_find?_eq_head?
    {α β : Type}
    (isMatch : α → Bool)
    (view : α → β)
    (items : List α) :
    (items.find? isMatch).map view = ((items.filter isMatch).map view).head? := by
  rw [List.head?_map, List.head?_filter]

namespace Orphan

/-- What a verdict says is declared are the statements of its stretch that are commented out. -/
theorem DecidedAs.numbers_declarations
    {base : Text}
    {segment : Segment}
    {verdict : Verdict}
    (decided : DecidedAs base segment verdict)
    (seeds : ∀ member ∈ segment.members, member.IsSeed)
    (orphans : ∀ run, segment = .run run →
      ∀ member ∈ run, isOrphanStatement member = member.line.isStatement)
    (name : Text) :
    (verdict.declarations.filter (·.declares == some name)).map (·.line.number) =
      (segment.hides name).map (·.number) := by
  cases decided with
  | keep tracked =>
      rfl
  | wrap safe named =>
      simp [Verdict.declarations, Segment.hides, Segment.suppressed, Segment.isRisky, safe]
  | @suppress members risky =>
      have statements : Segment.suppressed (.run members) = members.filter isOrphanStatement := by
        rw [Segment.suppressed, Segment.isRisky, risky, Bool.not_false, if_pos rfl]
        exact (List.filter_congr (orphans members rfl)).symm
      rw [Segment.hides, statements, Verdict.declarations, List.filter_map, List.map_map,
        List.filter_map, List.map_map]
      have named : ∀ member ∈ members.filter isOrphanStatement,
          ((suppressLine member).declares == some name) =
            (boundName? member.line.text == some name) := by
        intro member isMember
        obtain ⟨among, isOrphan⟩ := List.mem_filter.mp isMember
        have visible : member.line.text.isBlank = false := by
          rw [isOrphanStatement, Bool.and_eq_true, Bool.not_eq_true'] at isOrphan
          exact isOrphan.1
        have own : member.declares = _ := seeds member among
        rw [suppressLine, visible, if_neg Bool.false_ne_true]
        dsimp only
        rw [if_pos isOrphan, own,
          Marker.found?_of_isStatement ((orphans members rfl member among).symm.trans isOrphan)]
        exact congrArg (· == some name) Option.or_none
      rw [List.filter_congr (p := (fun tracked => tracked.declares == some name) ∘ suppressLine)
        named]
      refine List.map_congr_left fun member _ => ?_
      exact suppressLine_number member

/-- Statements are remembered from the last run to the first. -/
theorem numbers_declarations_verdictsOf
    (wrapperName : String)
    {unit : IndentUnit}
    {lines : List Line}
    (fresh : refreshLines unit lines = lines)
    (name : Text) :
    (((verdictsOf wrapperName lines).reverse.flatMap (·.declarations)).filter
        (·.declares == some name)).map (·.line.number) =
      ((segmentsOf lines).reverse.flatMap (·.hides name)).map (·.number) := by
  have known : ∀ segment ∈ segmentsOf lines,
      (∀ member ∈ segment.members, member.IsSeed) ∧
        ∀ run, segment = .run run →
          ∀ member ∈ run, isOrphanStatement member = member.line.isStatement := by
    intro segment isSegment
    refine ⟨fun member => isSeed_of_mem_segmentsOf isSegment, ?_⟩
    rintro run rfl member isMember
    exact isOrphanStatement_of_mem_run fresh isSegment isMember
  have decided := (List.forall₂_and_left _ _).mpr ⟨known, decidedAs_verdictsOf wrapperName lines⟩
  have same := map_eq_of_forall₂ (decided.imp fun _ _ own =>
    own.2.numbers_declarations own.1.1 own.1.2 name)
  rw [List.filter_flatMap, List.map_flatMap, List.map_flatMap, List.flatMap_def, List.flatMap_def,
    List.map_reverse, List.map_reverse, same]

end Orphan

namespace Source

/-- The line that is recorded for a name: that of its first marker, or in the last run. -/
theorem Consistent.lookup_suppressed
    {source : Source}
    (consistent : source.Consistent)
    (unreported : source.Unreported)
    (wrapperName : String)
    (name : Text) :
    (source.orphanStage wrapperName).suppressed.lookup name =
      (markersOf name source.lines ++
        (Orphan.segmentsOf source.lines).reverse.flatMap (·.hides name)).head?.map (·.number) := by
  rw [(consistent.leftByOrphanStage wrapperName).suppressed, lookup_rememberNames,
    lookup_rememberNames, unreported.suppressed, List.lookup_nil, Option.none_or,
    map_find?_eq_head?, map_find?_eq_head?,
    Orphan.numbers_declarations_verdictsOf wrapperName consistent.fresh, List.filter_map,
    List.map_map, ← List.head?_map, List.map_append, List.head?_append]
  rfl

end Source

/-- Lists that are viewed alike show each element of the one in the other. -/
theorem exists_of_map_eq_map
    {α β γ δ : Type}
    {first : List α}
    {second : List β}
    {firstView : α → γ}
    {firstOther : α → δ}
    {secondView : β → γ}
    {secondOther : β → δ}
    (sameView : first.map firstView = second.map secondView)
    (sameOther : first.map firstOther = second.map secondOther)
    {item : α}
    (isItem : item ∈ first) :
    ∃ other ∈ second, firstView item = secondView other ∧ firstOther item = secondOther other := by
  have both : first.map (fun item => (firstView item, firstOther item)) =
      second.map (fun other => (secondView other, secondOther other)) := by
    rw [← List.zip_map', ← List.zip_map', sameView, sameOther]
  have among := List.mem_map_of_mem (f := fun item => (firstView item, firstOther item)) isItem
  rw [both] at among
  obtain ⟨other, isOther, same⟩ := List.mem_map.mp among
  exact ⟨other, isOther, (congrArg Prod.fst same).symm, (congrArg Prod.snd same).symm⟩

/-- A line of a stretch that stands for a declaration is left of a line that declares the name. -/
theorem Segment.TrackedAs.exists_member
    {base : Text}
    {unit : IndentUnit}
    {segment : Segment}
    {piece : List Tracked}
    (tracked : segment.TrackedAs base unit piece)
    {member : Tracked}
    (isMember : member ∈ piece)
    {name : Text}
    (declares : member.declares = some name) :
    ∃ origin ∈ segment.members,
      segment.declared? origin.line = some name ∧ member.line.number = origin.line.number := by
  obtain ⟨left, names⟩ := tracked
  have found {rest : List Tracked} (texts : segment.LeavesTexts unit (rest.map (·.line)))
      (restNames : rest.map (·.declares) = segment.members.map (segment.declared? ·.line))
      (isRest : member ∈ rest) :
      ∃ origin ∈ segment.members,
        segment.declared? origin.line = some name ∧ member.line.number = origin.line.number := by
    have numbers : rest.map (·.line.number) = segment.members.map (·.line.number) := by
      have entries := congrArg (List.map Prod.fst) texts
      rwa [List.map_map, List.map_map, List.map_map] at entries
    obtain ⟨origin, isOrigin, sameName, sameNumber⟩ :=
      exists_of_map_eq_map restNames numbers isRest
    exact ⟨origin, isOrigin, sameName.symm.trans declares, sameNumber⟩
  generalize linesAre : piece.map (·.line) = lines at left
  cases left with
  | alone noSafe texts =>
      rw [noSafe] at names
      exact found (linesAre ▸ texts) names isMember
  | wrapped safe isHeader texts =>
      obtain ⟨header, rest, rfl, _, restAre⟩ := List.map_eq_cons_iff.mp linesAre
      rw [safe, List.map_cons] at names
      obtain ⟨noName, restNames⟩ := List.cons.inj names
      rcases List.mem_cons.mp isMember with rfl | inRest
      · rw [declares] at noName
        cases noName
      · exact found (restAre ▸ texts) restNames inRest

namespace Orphan

/-- What a line of a stretch stands for is declared by a marker or by a hidden statement. -/
theorem mem_markersOf_or_hides
    {lines : List Line}
    {segment : Segment}
    (isSegment : segment ∈ segmentsOf lines)
    {member : Tracked}
    (isMember : member ∈ segment.members)
    {name : Text}
    (declares : segment.declared? member.line = some name) :
    ∃ line ∈ markersOf name lines ++ (segmentsOf lines).flatMap (·.hides name),
      line.number = member.line.number := by
  unfold Segment.declared? at declares
  split at declares
  · rename_i hidden
    rw [Bool.and_eq_true] at hidden
    refine ⟨member.line,
      List.mem_append_right _ (List.mem_flatMap.mpr ⟨segment, isSegment, ?_⟩), rfl⟩
    rw [Segment.hides, Segment.suppressed, if_pos hidden.1, List.mem_filter, beq_iff_eq]
    exact ⟨List.mem_map_of_mem (List.mem_filter.mpr ⟨isMember, hidden.2⟩), declares⟩
  · have stretches := Segment.cut_members 0 (lines.map seedLine)
    obtain ⟨seed, isSeed, shape⟩ := exists_left_of_forall₂ stretches
      (List.mem_flatMap.mpr ⟨segment, isSegment, isMember⟩)
    obtain ⟨line, isLine, rfl⟩ := List.mem_map.mp isSeed
    have known : member.IsSeed := isSeed_of_mem_segmentsOf isSegment isMember
    have sameName : member.declares = (seedLine line).declares := by
      rcases shape with rfl | rfl
      · rfl
      · exact declares_runMember line
    have sameNumber : line.number = member.line.number := by
      rcases shape with rfl | rfl
      · rfl
      · exact (seedLine line).markOrphan_number.symm
    refine ⟨line, List.mem_append_left _ (List.mem_filter.mpr ⟨isLine, ?_⟩), sameNumber⟩
    rw [beq_iff_eq, ← sameName, known]
    exact declares

end Orphan

namespace Source

/-- A line that stands for a declaration has the number of a line that declares the name. -/
theorem Consistent.exists_declaring
    {source : Source}
    (consistent : source.Consistent)
    {wrapperName : String}
    {tracked : Tracked}
    (isLeft : tracked ∈ source.trackedBehind wrapperName)
    {name : Text}
    (declares : tracked.declares = some name) :
    ∃ line ∈ markersOf name source.lines ++
        (Orphan.segmentsOf source.lines).flatMap (·.hides name),
      line.number = tracked.line.number := by
  obtain ⟨pieces, shape, stretches⟩ := consistent.exists_pieces_trackedBehind wrapperName
  rw [shape] at isLeft
  obtain ⟨piece, isPiece, inPiece⟩ := List.mem_flatten.mp isLeft
  obtain ⟨segment, isSegment, trackedAs⟩ := exists_left_of_forall₂ stretches isPiece
  obtain ⟨member, isMember, isName, sameNumber⟩ := trackedAs.exists_member inPiece declares
  obtain ⟨line, isLine, lineNumber⟩ := Orphan.mem_markersOf_or_hides isSegment isMember isName
  exact ⟨line, isLine, lineNumber.trans sameNumber.symm⟩

end Source

/-- Behind a line that declares a name stands what is below the declaration. -/
theorem Tracked.exists_of_mem_belowDeclaration
    {name : Text}
    {tracked : List Tracked}
    {member : Tracked}
    (isBelow : member ∈ belowDeclaration name tracked) :
    ∃ above declaring between below,
      tracked = above ++ declaring :: (between ++ member :: below) ∧
        declaring.declares = some name := by
  have parts := List.takeWhile_append_dropWhile (p := (·.declares != some name)) (l := tracked)
  unfold belowDeclaration at isBelow
  cases rest : tracked.dropWhile (·.declares != some name) with
  | nil =>
      rw [rest] at isBelow
      cases isBelow
  | cons declaring others =>
      rw [rest] at isBelow parts
      obtain ⟨between, below, shape⟩ := List.append_of_mem isBelow
      have stops := List.head?_dropWhile_not (·.declares != some name) tracked
      rw [rest] at stops
      refine
        ⟨tracked.takeWhile (·.declares != some name), declaring, between, below, ?_, by
          simpa using stops⟩
      have below_eq : others = between ++ member :: below := shape
      rw [← below_eq, parts]

/-- Statements that are commented out are numbered from the top. -/
theorem Numbered.hides
    {lines : List Line}
    (numbered : Numbered lines)
    (name : Text) :
    Numbered ((Orphan.segmentsOf lines).flatMap (·.hides name)) := by
  have shown : ((Orphan.segmentsOf lines).flatMap (·.members)).map (·.line.number) =
      lines.map (·.number) :=
    map_eq_of_forall₂ ((Orphan.segmentsOf_shows lines).imp fun _ _ shows => shows.number)
  have among (segments : List Segment) :
      List.Sublist (segments.flatMap (·.hides name))
        ((segments.flatMap (·.members)).map (·.line)) := by
    induction segments with
    | nil =>
        exact List.Sublist.slnil
    | cons segment rest inductionHypothesis =>
        rw [List.flatMap_cons, List.flatMap_cons, List.map_append]
        refine List.Sublist.append ?_ inductionHypothesis
        refine List.Sublist.trans List.filter_sublist (List.Sublist.map _ ?_)
        unfold Segment.suppressed
        split
        · exact List.filter_sublist
        · exact List.nil_sublist _
  have sublist := (among (Orphan.segmentsOf lines)).map (·.number)
  rw [List.map_map] at sublist
  exact List.Pairwise.sublist sublist (shown ▸ numbered)

/-- A statement that is commented out is a line of the file. -/
theorem Orphan.exists_of_mem_hides
    {lines : List Line}
    {name : Text}
    {line : Line}
    (isHidden : line ∈ (segmentsOf lines).flatMap (·.hides name)) :
    ∃ origin ∈ lines, origin.number = line.number := by
  obtain ⟨segment, isSegment, hides⟩ := List.mem_flatMap.mp isHidden
  obtain ⟨member, isSuppressed, rfl⟩ := List.mem_map.mp (List.mem_filter.mp hides).1
  have isMember : member ∈ segment.members := by
    unfold Segment.suppressed at isSuppressed
    split at isSuppressed
    · exact (List.mem_filter.mp isSuppressed).1
    · cases isSuppressed
  obtain ⟨origin, isOrigin, shows⟩ := exists_left_of_forall₂ (segmentsOf_shows lines)
    (List.mem_flatMap.mpr ⟨segment, isSegment, isMember⟩)
  exact ⟨origin, isOrigin, shows.number.symm⟩

/-- Nothing in numbered lines has a smaller number than the first of them. -/
theorem Numbered.head?_le
    {lines : List Line}
    (numbered : Numbered lines)
    {top line : Line}
    (isTop : top ∈ lines.head?)
    (isLine : line ∈ lines) :
    top.number ≤ line.number := by
  obtain ⟨rest, rfl⟩ := List.head?_eq_some_iff.mp isTop
  rcases List.mem_cons.mp isLine with rfl | inRest
  · exact Nat.le_refl _
  · exact (List.pairwise_cons.mp numbered).1 _ (List.mem_map_of_mem inRest)

theorem Marker.kind_of_found?
    {line : Line}
    {found : Found}
    (isFound : found? line = some found) :
    found.kind ≠ .suppressedReference := by
  unfold found? at isFound
  split at isFound
  · split at isFound
    · rename_i payload kind isPayload
      dsimp only at isFound
      split at isFound
      · cases isFound
      · obtain rfl := Option.some.inj isFound
        unfold payload? at isPayload
        split at isPayload
        · obtain ⟨_, rfl⟩ := Prod.mk.inj (Option.some.inj isPayload)
          exact IssueKind.noConfusion
        · obtain ⟨code, _, same⟩ := Option.map_eq_some_iff.mp isPayload
          obtain ⟨_, rfl⟩ := Prod.mk.inj same
          exact IssueKind.noConfusion
    · cases isFound
  · cases isFound

namespace Source

/-- What a file is flagged for is about names. -/
theorem Consistent.mem_referenceIssues
    {source : Source}
    (consistent : source.Consistent)
    (unreported : source.Unreported)
    {wrapperName : String}
    {issue : Issue}
    (isIssue : issue ∈ (source.orphanStage wrapperName).report.issues)
    (kind : issue.kind = .suppressedReference) :
    issue ∈ referenceIssues (source.orphanStage wrapperName).suppressed
      (source.trackedBehind wrapperName) := by
  rw [(consistent.leftByOrphanStage wrapperName).issues, unreported.issues, List.nil_append,
    List.mem_append, List.mem_append] at isIssue
  rcases isIssue with (marked | hidden) | reference
  · obtain ⟨line, _, isFound⟩ := List.mem_filterMap.mp marked
    obtain ⟨found, found?, rfl⟩ := Option.map_eq_some_iff.mp isFound
    exact absurd kind (Marker.kind_of_found? found?)
  · rw [Orphan.issues_verdictsOf wrapperName consistent.fresh] at hidden
    obtain ⟨segment, _, among⟩ := List.mem_flatMap.mp hidden
    obtain ⟨member, _, rfl⟩ := List.mem_map.mp among
    cases kind
  · exact reference

/-- The line that is flagged for a name stands below one that declares it. -/
theorem exists_of_flagged
    {suppressed : List (Text × Nat)}
    {tracked : List Tracked}
    {issue : Issue}
    (isIssue : issue ∈ referenceIssues suppressed tracked)
    {name : Text}
    (isName : issue.name = String.ofList name) :
    ∃ member ∈ Tracked.belowDeclaration name tracked,
      issue = referenceIssue member.line name ((suppressed.lookup name).getD 0) := by
  have among : issue ∈ (referenceIssues suppressed tracked).filter
      (·.name == String.ofList name) :=
    List.mem_filter.mpr ⟨isIssue, by simpa using isName⟩
  rw [referenceIssues_filter] at among
  split at among
  · cases among
  · obtain ⟨line, isLine, rfl⟩ := List.mem_map.mp among
    obtain ⟨member, found, rfl⟩ := Option.map_eq_some_iff.mp (Option.mem_toList.mp isLine)
    exact ⟨member, List.mem_of_find?_eq_some found, rfl⟩

/-- Below a line that declares a name no line of the file has a smaller number. -/
theorem number_le_of_mem_belowDeclaration
    {source : Source}
    (consistent : source.Consistent)
    (numbered : Numbered source.lines)
    (positive : ∀ line ∈ source.lines, line.number ≠ 0)
    {wrapperName : String}
    {name : Text}
    {member : Tracked}
    (isBelow : member ∈ Tracked.belowDeclaration name (source.trackedBehind wrapperName))
    (numberedLine : member.line.number ≠ 0) :
    ∃ line ∈ markersOf name source.lines ++
        (Orphan.segmentsOf source.lines).flatMap (·.hides name),
      line.number ≤ member.line.number := by
  obtain ⟨above, declaring, between, below, shape, declares⟩ :=
    Tracked.exists_of_mem_belowDeclaration isBelow
  have isLeft : declaring ∈ source.trackedBehind wrapperName := by
    rw [shape]
    exact List.mem_append_right _ List.mem_cons_self
  obtain ⟨line, isLine, sameNumber⟩ := consistent.exists_declaring isLeft declares
  refine ⟨line, isLine, ?_⟩
  have leftNumbers : ((source.trackedBehind wrapperName).map (·.line.number)).filter (· ≠ 0) =
      source.lines.map (·.number) := by
    have lines := congrArg (List.map (·.number)) (consistent.map_line_trackedBehind wrapperName)
    have entries := congrArg (List.map Prod.fst) (consistent.entries_orphanStage wrapperName)
    rw [List.map_map] at lines
    rw [List.map_map, List.map_map] at entries
    rw [show (source.trackedBehind wrapperName).map (·.line.number) = _ from lines.trans entries]
    exact (Orphan.numbers_resolvedLines wrapperName source.unit positive).1
  have sorted : (((source.trackedBehind wrapperName).map (·.line.number)).filter (· ≠ 0)).Pairwise
      (· ≤ ·) :=
    leftNumbers ▸ numbered
  have declaringNumbered : declaring.line.number ≠ 0 := by
    rw [← sameNumber]
    rcases List.mem_append.mp isLine with marked | hidden
    · exact positive line (List.mem_filter.mp marked).1
    · obtain ⟨origin, isOrigin, same⟩ := Orphan.exists_of_mem_hides hidden
      exact same ▸ positive origin isOrigin
  rw [shape, List.map_append, List.filter_append, List.pairwise_append, List.map_cons,
    List.filter_cons_of_pos (by simpa using declaringNumbered), List.pairwise_cons] at sorted
  rw [sameNumber]
  refine sorted.2.1.1 _ (List.mem_filter.mpr ⟨?_, by simpa using numberedLine⟩)
  exact List.mem_map_of_mem (List.mem_append_right _ List.mem_cons_self)

/--
A line that is the first of those with a marker, or without them any line, is the
topmost declaration exactly when the first of the others does not stand above it.
-/
theorem recorded_le_iff
    {marked hidden others : List Line}
    (markedNumbered : Numbered marked)
    (hiddenNumbered : Numbered hidden)
    {recorded : Nat}
    (isRecorded : (marked ++ others).head?.map (·.number) = some recorded) :
    (∀ line ∈ marked ++ hidden, recorded ≤ line.number) ↔
      ∀ top ∈ hidden.head?, recorded ≤ top.number := by
  constructor
  · intro least top isTop
    exact least top (List.mem_append_right _ (List.mem_of_mem_head? isTop))
  · intro topmost line isLine
    rcases List.mem_append.mp isLine with isMarked | isHidden
    · obtain ⟨first, isFirst⟩ := Option.isSome_iff_exists.mp
        (List.isSome_head?.mpr (List.ne_nil_of_mem isMarked))
      rw [List.head?_append, isFirst, Option.some_or, Option.map_some] at isRecorded
      rw [← Option.some.inj isRecorded]
      exact markedNumbered.head?_le isFirst isMarked
    · obtain ⟨top, isTop⟩ := Option.isSome_iff_exists.mp
        (List.isSome_head?.mpr (List.ne_nil_of_mem isHidden))
      exact (topmost top isTop).trans (hiddenNumbered.head?_le isTop isHidden)

/-- A flagged line is reported with the recorded line, and stands below a declaration. -/
theorem Consistent.exists_recorded_of_flagged
    {source : Source}
    (consistent : source.Consistent)
    (unreported : source.Unreported)
    (numbered : Numbered source.lines)
    (positive : ∀ line ∈ source.lines, line.number ≠ 0)
    {wrapperName : String}
    {issue : Issue}
    (isIssue : issue ∈ (source.orphanStage wrapperName).report.issues)
    (kind : issue.kind = .suppressedReference)
    {name : Text}
    (isName : issue.name = String.ofList name) :
    ∃ recorded, (source.orphanStage wrapperName).suppressed.lookup name = some recorded ∧
      ∃ line ∈ (source.orphanStage wrapperName).lines,
        issue = referenceIssue line name recorded ∧
          ((∀ other ∈ markersOf name source.lines ++
                (Orphan.segmentsOf source.lines).flatMap (·.hides name),
              recorded ≤ other.number) →
            line.number = 0 ∨ recorded ≤ line.number) := by
  obtain ⟨member, isBelow, shape⟩ := exists_of_flagged
    (consistent.mem_referenceIssues unreported isIssue kind) isName
  obtain ⟨above, declaring, between, below, trackedShape, declares⟩ :=
    Tracked.exists_of_mem_belowDeclaration isBelow
  have isLeft : declaring ∈ source.trackedBehind wrapperName := by
    rw [trackedShape]
    exact List.mem_append_right _ List.mem_cons_self
  obtain ⟨line, isLine, _⟩ := consistent.exists_declaring isLeft declares
  have someDeclares : markersOf name source.lines ++
      (Orphan.segmentsOf source.lines).reverse.flatMap (·.hides name) ≠ [] := by
    intro none
    obtain ⟨noneMarked, noneHidden⟩ := List.append_eq_nil_iff.mp none
    rcases List.mem_append.mp isLine with isMarked | isHidden
    · exact List.ne_nil_of_mem isMarked noneMarked
    · obtain ⟨segment, isSegment, hides⟩ := List.mem_flatMap.mp isHidden
      have among := List.mem_flatMap.mpr ⟨segment, List.mem_reverse.mpr isSegment, hides⟩
      exact List.ne_nil_of_mem among noneHidden
  obtain ⟨first, isFirst⟩ := Option.isSome_iff_exists.mp (List.isSome_head?.mpr someDeclares)
  have isRecorded :
      (source.orphanStage wrapperName).suppressed.lookup name = some first.number := by
    rw [consistent.lookup_suppressed unreported wrapperName name, isFirst, Option.map_some]
  rw [isRecorded, Option.getD_some] at shape
  refine ⟨first.number, isRecorded, member.line, ?_, shape, fun least => ?_⟩
  · rw [← consistent.map_line_trackedBehind wrapperName]
    exact List.mem_map_of_mem (Tracked.mem_of_mem_belowDeclaration isBelow)
  · by_cases madeUp : member.line.number = 0
    · exact .inl madeUp
    · obtain ⟨declaringLine, isDeclaring, notBelow⟩ :=
        number_le_of_mem_belowDeclaration consistent numbered positive isBelow madeUp
      exact .inr ((least declaringLine isDeclaring).trans notBelow)

/--
Of the lines that declare a suppressed name, the one that is recorded is the
first that carries a marker, and without a marker the first in the last run.  It
is the topmost one exactly when no statement above it that is commented out
declares the name.  A reference is reported with the recorded line, which then
does not stand below the use.
-/
theorem recorded_declaration_is_topmost_iff
    (style : IndentUnit.Style)
    (width : Int)
    (rules : List UpliftRule)
    (path : String)
    (content : Text)
    (wrapperName : String)
    (name : Text) :
    let before :=
      (((ofContent path content).classifyStage style width).upliftStage rules).indentStage
    let after := before.orphanStage wrapperName
    let segments := Orphan.segmentsOf before.lines
    let marked := markersOf name before.lines
    let hidden := segments.flatMap (·.hides name)
    after.suppressed.lookup name =
        (marked ++ segments.reverse.flatMap (·.hides name)).head?.map (·.number) ∧
      (∀ recorded, after.suppressed.lookup name = some recorded →
        ((∀ line ∈ marked ++ hidden, recorded ≤ line.number) ↔
          ∀ top ∈ hidden.head?, recorded ≤ top.number)) ∧
      ∀ issue ∈ after.report.issues, issue.kind = .suppressedReference →
        issue.name = String.ofList name →
          ∃ recorded, after.suppressed.lookup name = some recorded ∧
            ∃ line ∈ after.lines, issue = referenceIssue line name recorded ∧
              ((∀ line ∈ marked ++ hidden, recorded ≤ line.number) →
                line.number = 0 ∨ recorded ≤ line.number) := by
  intro before after segments marked hidden
  have consistent : before.Consistent :=
    ((classifyStage_consistent style width _).upliftStage rules).indentStage
  have numbered : Numbered before.lines :=
    (((Numbered.ofContent path content).of_continues (refreshLines_continues _ _)).upliftStage
      rules).indentStage ((classifyStage_consistent style width _).upliftStage rules)
  have classified : ((ofContent path content).classifyStage style width).Unreported :=
    ⟨rfl, rfl⟩
  have unreported : before.Unreported :=
    (classified.upliftStage rules).indentStage
  have positive : ∀ line ∈ before.lines, line.number ≠ 0 := by
    have carried : Carried (ofContent path content).lines before.lines before.report.counters :=
      (((Carried.ofContent path content []).of_continues
        (refreshLines_continues _ _)).upliftStage rules).indentStage
    exact carried.number_ne_zero fun _ => number_ne_zero_of_mem_ofContent
  have recordedIs := consistent.lookup_suppressed unreported wrapperName name
  refine ⟨recordedIs, ?_, ?_⟩
  · intro recorded isRecorded
    have markedNumbered : Numbered marked :=
      numbered.sublist (List.Sublist.map _ List.filter_sublist)
    exact recorded_le_iff markedNumbered (numbered.hides name) (recordedIs.symm.trans isRecorded)
  · intro issue isIssue kind isName
    exact consistent.exists_recorded_of_flagged unreported numbered positive isIssue kind isName

/-- Of two runs that declare a name the last one is recorded, and cited above its line. -/
theorem declaration_below_the_use_is_recorded :
    let before :=
      (((ofContent "x.gd" "x = foo()\nfunc f():\n\tprint(x)\nx = bar()\n".toList).classifyStage
        .detected 4).upliftStage (UpliftRule.enabled [])).indentStage
    let after := before.orphanStage ""
    let name := "x".toList
    (markersOf name before.lines ++
        (Orphan.segmentsOf before.lines).flatMap (·.hides name)).map (·.number) = [1, 4] ∧
      after.suppressed.lookup name = some 4 ∧
      (after.report.issues.filter (·.kind == .suppressedReference)).map
          (fun issue => (issue.line, issue.message)) =
        [(3, "\"x\" is only declared by suppressed code (line 4)")] := by
  decide +kernel

end Source

end ScriptUplift
