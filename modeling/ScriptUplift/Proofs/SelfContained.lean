import Mathlib.Data.List.Infix
import Mathlib.Tactic.Common
import ScriptUplift.Proofs.BucketOrder
import ScriptUplift.Proofs.Rereading

namespace ScriptUplift

/-!
# Moving members that stand for themselves

Members are moved with what was known about them before the move.  That stays
right when every part of the split leaves nothing open and expects nothing: a
reader of the arranged lines then knows every line as before and finds the
buckets in order.  An annotation that a blank line or the lines of its own
arguments part from its declaration breaks this, since it is left with the
member above.
-/

/-- Blank lines at the end of lines that are read in a context can go. -/
theorem ReadsIn.withoutTrailingBlanks
    {context : Context}
    {lines : List Line}
    (readsIn : ReadsIn context lines) :
    ReadsIn context (Canonical.withoutTrailingBlanks lines) := by
  obtain ⟨blanks, blank, parts⟩ := Canonical.exists_blanks_withoutTrailingBlanks lines
  generalize Canonical.withoutTrailingBlanks lines = kept at parts ⊢
  subst parts
  refine (ReadsIn.of_append ?_ readsIn.reads).1
  cases blanks with
  | nil =>
      simpa using readsIn.closed
  | cons first others =>
      have isBlank := blank first List.mem_cons_self
      simp only [Line.isBlank, Bool.and_eq_true, Bool.not_eq_true'] at isBlank
      exact closed_of_starts readsIn.reads isBlank.1

/-- Blank lines at the end of lines that stand in a context can go. -/
theorem StandsIn.withoutTrailingBlanks
    {context : Context}
    {lines : List Line}
    (stands : StandsIn context lines) :
    StandsIn context (Canonical.withoutTrailingBlanks lines) := by
  have readsIn : ReadsIn context lines := ⟨stands.rests.closed, stands.reads⟩
  have keptReads := readsIn.withoutTrailingBlanks
  obtain ⟨blanks, blank, parts⟩ := Canonical.exists_blanks_withoutTrailingBlanks lines
  generalize Canonical.withoutTrailingBlanks lines = kept at parts keptReads ⊢
  subst parts
  have noStatement : blanks.filter (·.isStatement) = [] := by
    rw [List.filter_eq_nil_iff]
    intro line isBlank statement
    have read : line ∈ readLines .neutral context (kept ++ blanks) := by
      rw [stands.reads]
      exact List.mem_append_right _ isBlank
    have text := isBlank_eq_false_of_mem_classifyLines read statement
    have empty := blank line isBlank
    simp [Line.isBlank, text] at empty
  have sameLast : lastStatement? (kept ++ blanks) = lastStatement? kept := by
    simp [lastStatement?, noStatement]
  exact ⟨⟨keptReads.closed, sameLast ▸ stands.rests.opensNothing,
    sameLast ▸ stands.rests.noAnnotation⟩, keptReads.reads⟩

theorem Steady.withoutTrailingBlanks
    {unit : IndentUnit}
    {lines : List Line}
    (steady : Steady unit lines) :
    Steady unit (Canonical.withoutTrailingBlanks lines) :=
  fun context sameUnit atRest => (steady context sameUnit atRest).withoutTrailingBlanks

theorem Steady.separator
    (unit : IndentUnit) :
    Steady unit [Canonical.separator] := by
  intro context _ _
  exact ⟨by decide, rfl⟩

namespace MemberSplit

/-- Every part rests, and only annotations stand above a declaration in its member. -/
structure SelfContained
    (split : MemberSplit) :
    Prop where
  prelude : Rests split.prelude
  members : ∀ member ∈ split.members, Rests member.lines
  leads : ∀ member ∈ split.members, ∀ line ∈ member.lead,
    line.isStatement = true → line.annotationOnly = true

instance (split : MemberSplit) : Decidable split.SelfContained :=
  decidable_of_iff
    (Rests split.prelude ∧
      (∀ member ∈ split.members, Rests member.lines) ∧
      ∀ member ∈ split.members, ∀ line ∈ member.lead,
        line.isStatement = true → line.annotationOnly = true)
    ⟨fun facts => ⟨facts.1, facts.2.1, facts.2.2⟩,
      fun contained => ⟨contained.prelude, contained.members, contained.leads⟩⟩

end MemberSplit

theorem Line.depth_of_isHead
    {line : Line}
    (isHead : line.isHead = true) :
    line.depth = 0 := by
  simp only [Line.isHead, Bool.and_eq_true, beq_iff_eq] at isHead
  exact isHead.1.2

/-- Members that rest and are read one after the other are steady. -/
theorem steady_of_reads
    {context : Context}
    (atRest : context.AtRest)
    {members : List Member}
    (headed : ∀ member ∈ members, member.Headed)
    (rests : ∀ member ∈ members, Rests member.lines)
    (leads : ∀ member ∈ members, ∀ line ∈ member.lead,
      line.isStatement = true → line.annotationOnly = true)
    (reads :
      readLines .neutral context (members.flatMap Member.lines) =
        members.flatMap Member.lines) :
    ∀ member ∈ members, Steady context.unit member.lines := by
  induction members generalizing context with
  | nil =>
      simp
  | cons member rest inductionHypothesis =>
      obtain ⟨ownHeaded, restHeaded⟩ := List.forall_mem_cons.mp headed
      obtain ⟨ownRests, restRests⟩ := List.forall_mem_cons.mp rests
      obtain ⟨ownLead, restLeads⟩ := List.forall_mem_cons.mp leads
      rw [List.flatMap_cons] at reads
      obtain ⟨stands, restReads⟩ := StandsIn.of_append ownRests reads
      have ownSteady : Steady context.unit member.lines := by
        refine StandsIn.steady atRest ?_ ?_ ?_ stands
        · exact fun line isLead statement => .inl (ownLead line isLead statement)
        · exact fun _ => .inr (Line.depth_of_isHead ownHeaded.head)
        · exact Line.isStatement_of_isHead ownHeaded.head
      have restSteady :=
        inductionHypothesis (atRest.belowAll ownRests) restHeaded restRests restLeads restReads
      rw [context.unit_belowAll] at restSteady
      exact List.forall_mem_cons.mpr ⟨ownSteady, restSteady⟩

/-- Where a file is read from its first line. -/
theorem Context.atRest_top
    (unit : IndentUnit) :
    Context.AtRest { unit := unit } :=
  ⟨rfl, rfl⟩

namespace MemberSplit

/-- The parts of a self-contained split of known lines stand where they are, and the members anywhere. -/
theorem SelfContained.stands
    {unit : IndentUnit}
    {lines : List Line}
    (fresh : refreshLines unit lines = lines)
    (contained : (ofLines lines).SelfContained) :
    StandsIn { unit := unit } (ofLines lines).prelude ∧
      ∀ member ∈ (ofLines lines).members, Steady unit member.lines := by
  have reads : readLines .neutral { unit := unit } lines = lines := fresh
  rw [← ofLines_lines lines] at reads
  obtain ⟨preludeStands, membersRead⟩ := StandsIn.of_append contained.prelude reads
  refine ⟨preludeStands, ?_⟩
  have steady :=
    steady_of_reads ((Context.atRest_top unit).belowAll contained.prelude)
      (fun _ => headed_of_mem_ofLines) contained.members contained.leads membersRead
  rwa [Context.unit_belowAll] at steady

end MemberSplit

namespace Canonical

theorem bucketLines_steady
    {unit : IndentUnit}
    {members : List Member}
    (steady : ∀ member ∈ members, Steady unit member.lines) :
    Steady unit (bucketLines members) := by
  fun_induction bucketLines members with
  | case1 =>
      exact .nil unit
  | case2 last =>
      exact (steady last List.mem_cons_self).withoutTrailingBlanks
  | case3 member rest _ inductionHypothesis =>
      obtain ⟨own, others⟩ := List.forall_mem_cons.mp steady
      have setOff :
          Steady unit
            (if member.head.opens && !endsBlank member.lines then [separator] else []) := by
        split
        · exact .separator unit
        · exact .nil unit
      exact (own.append setOff).append (inductionHypothesis others)

/-- Adding a bucket of steady members keeps lines standing. -/
theorem addBucket_stands
    {context : Context}
    (atRest : context.AtRest)
    {members : List Member}
    (steady : ∀ member ∈ members, Steady context.unit member.lines)
    {above : List Line}
    (stands : StandsIn context above)
    (bucket : Bucket) :
    StandsIn context (addBucket members above bucket) := by
  have own : Steady context.unit (bucketLines (membersOf members bucket)) :=
    bucketLines_steady fun member isOwn => steady member (List.mem_of_mem_filter isOwn)
  unfold addBucket
  dsimp only
  split
  · exact stands
  · split
    · exact own context rfl atRest
    · exact stands.append atRest ((Steady.separator context.unit).append own)

/-- The canonical order of a self-contained split stands as it is. -/
theorem arrange_stands
    {unit : IndentUnit}
    {split : MemberSplit}
    (preludeStands : StandsIn { unit := unit } split.prelude)
    (steady : ∀ member ∈ split.members, Steady unit member.lines) :
    StandsIn { unit := unit } (arrange split) := by
  have added (buckets : List Bucket) {above : List Line}
      (stands : StandsIn { unit := unit } above) :
      StandsIn { unit := unit } (buckets.foldl (addBucket split.members) above) := by
    induction buckets generalizing above with
    | nil =>
        exact stands
    | cons bucket rest inductionHypothesis =>
        exact inductionHypothesis
          (addBucket_stands (Context.atRest_top unit) steady stands bucket)
  exact added Bucket.ofMembers preludeStands.withoutTrailingBlanks

/-- The canonical order of a self-contained script is known as it stands. -/
theorem refreshLines_arrange
    {unit : IndentUnit}
    {lines : List Line}
    (fresh : refreshLines unit lines = lines)
    (contained : (MemberSplit.ofLines lines).SelfContained) :
    refreshLines unit (arrange (MemberSplit.ofLines lines)) =
      arrange (MemberSplit.ofLines lines) := by
  obtain ⟨preludeStands, steady⟩ := contained.stands fresh
  exact (arrange_stands preludeStands steady).reads

end Canonical

/-- No head is among the blank lines. -/
theorem filter_isHead_visibleLines
    {lines : List Line}
    (text : ∀ line ∈ lines, line.isHead = true → line.isBlank = false) :
    (visibleLines lines).filter (·.isHead) = lines.filter (·.isHead) := by
  rw [visibleLines, List.filter_filter]
  apply List.filter_congr
  intro line isLine
  by_cases isHead : line.isHead = true
  · simp [isHead, text line isLine isHead]
  · simp [isHead]

/-- The heads in canonical order are those of the sorted members. -/
theorem Canonical.heads_arrange
    {unit : IndentUnit}
    {lines : List Line}
    (fresh : refreshLines unit lines = lines)
    (contained : (MemberSplit.ofLines lines).SelfContained) :
    (arrange (MemberSplit.ofLines lines)).filter (·.isHead) =
      (sortedMembers (MemberSplit.ofLines lines).members).map (·.head) := by
  have sortedPerm := List.mergeSort_perm (MemberSplit.ofLines lines).members precedes
  have arrangedText :
      ∀ line ∈ arrange (MemberSplit.ofLines lines), line.isHead = true → line.isBlank = false := by
    rw [← refreshLines_arrange fresh contained]
    exact fun _ => Line.isBlank_eq_false_of_isHead
  have sortedText :
      ∀ line ∈ (MemberSplit.ofLines lines).prelude ++
          (sortedMembers (MemberSplit.ofLines lines).members).flatMap Member.lines,
        line.isHead = true → line.isBlank = false := by
    intro line isLine isHead
    have old : line ∈ lines := by
      rw [← MemberSplit.ofLines_lines lines]
      exact ((sortedPerm.flatMap_right Member.lines).append_left _).subset isLine
    rw [← fresh] at old
    exact Line.isBlank_eq_false_of_isHead old isHead
  have sortedHeaded :
      ∀ member ∈ sortedMembers (MemberSplit.ofLines lines).members, member.Headed :=
    fun _ isMember => MemberSplit.headed_of_mem_ofLines (sortedPerm.subset isMember)
  rw [← filter_isHead_visibleLines arrangedText,
    visibleLines_arrange fun _ => MemberSplit.bucket_mem_of_mem_ofLines,
    filter_isHead_visibleLines sortedText, List.filter_append,
    MemberSplit.filter_isHead_prelude, filter_isHead_flatMap_lines sortedHeaded]
  rfl

namespace MemberSplit

/-- The places of the members in the canonical order of buckets. -/
def ranks
    (split : MemberSplit) :
    List Nat :=
  split.members.map (·.bucket.rank)

theorem ranks_ofLines
    (lines : List Line) :
    (ofLines lines).ranks = (lines.filter (·.isHead)).map (·.category.bucket.rank) := by
  rw [← heads_ofLines, List.map_map]
  rfl

/-- The places of the members depend on what is known only. -/
theorem ranks_congr
    {first second : List Line}
    (sameKnown : first.map Line.known = second.map Line.known) :
    (ofLines first).ranks = (ofLines second).ranks := by
  have ofKnown (lines : List Line) :
      (ofLines lines).ranks =
        ((lines.map Line.known).filter fun known =>
          !known.continues && !known.annotationOnly && known.depth == 0 &&
            !known.category.isTrivia).map (·.category.bucket.rank) := by
    rw [ranks_ofLines, List.filter_map, List.map_map]
    rfl
  rw [ofKnown, ofKnown, sameKnown]

end MemberSplit

theorem Canonical.ranks_arrange
    {unit : IndentUnit}
    {lines : List Line}
    (fresh : refreshLines unit lines = lines)
    (contained : (MemberSplit.ofLines lines).SelfContained) :
    (MemberSplit.ofLines (arrange (MemberSplit.ofLines lines))).ranks.Pairwise (· ≤ ·) := by
  rw [MemberSplit.ranks_ofLines, heads_arrange fresh contained, List.map_map, List.pairwise_map]
  have sorted :=
    List.pairwise_mergeSort precedes_trans precedes_total (MemberSplit.ofLines lines).members
  exact sorted.imp fun inOrder => of_decide_eq_true inOrder

namespace Source

/-- Member order of a self-contained file leaves a file that recomputation leaves alone. -/
theorem Consistent.canonicalStage
    {source : Source}
    (consistent : source.Consistent)
    (contained : (MemberSplit.ofLines source.lines).SelfContained) :
    source.canonicalStage.1.Consistent := by
  rcases canonicalStage_cases fun _ => consistent.category_ne_orphan with
    ⟨_, same⟩ | ⟨_, changed⟩
  · rw [same]
    exact consistent.of_same rfl rfl
  · rw [changed]
    exact ⟨consistent.settled, Canonical.refreshLines_arrange consistent.fresh contained⟩

/-- A reader of a self-contained file finds its buckets in order after member order. -/
theorem Consistent.ranks_canonicalStage
    {source : Source}
    (consistent : source.Consistent)
    (contained : (MemberSplit.ofLines source.lines).SelfContained) :
    (MemberSplit.ofLines source.canonicalStage.1.refresh.lines).ranks.Pairwise (· ≤ ·) := by
  rw [(consistent.canonicalStage contained).refresh_eq]
  have arranged := Canonical.ranks_arrange consistent.fresh contained
  rcases canonicalStage_cases fun _ => consistent.category_ne_orphan with
    ⟨ordered, same⟩ | ⟨_, changed⟩
  · rw [same]
    rcases ordered with noMember | sameTexts
    · simp [register, MemberSplit.ranks, noMember]
    · have sameKnown := refreshLines_known_congr source.unit sameTexts
      rw [Canonical.refreshLines_arrange consistent.fresh contained, consistent.fresh] at sameKnown
      rwa [MemberSplit.ranks_congr sameKnown] at arranged
  · rw [changed]
    exact arranged

end Source

namespace Pipeline

/--
A reader of what a run with member order leaves finds the buckets of the members
in order, when the members stand for themselves before they are moved.
-/
theorem run_reads_in_bucket_order
    {config : Config}
    {pipeline : Pipeline}
    (accepted : ofConfig config = .ok pipeline)
    (canonical : config.canonical = true)
    (path : String)
    (content : Text)
    (contained : (MemberSplit.ofLines (repaired config path content).lines).SelfContained) :
    (pipeline.run path content).2 = .done ∧
      (MemberSplit.ofLines (pipeline.run path content).1.refresh.lines).ranks.Pairwise
        (· ≤ ·) := by
  rw [run_eq_migrated accepted]
  refine ⟨rfl, ?_⟩
  unfold migrated
  rw [if_pos canonical]
  exact (repaired_consistent config path content).ranks_canonicalStage contained

/-- An exported field below a private one and above a method is read in its place after the run. -/
theorem run_reads_exported_field_first :
    ofConfig .default = .ok ⟨stagesOf .default, countersOf .default⟩ ∧
      let content := "var _b = 2\n# speed\n@export\nvar a = 1\nfunc f():\n\tpass\n".toList
      (MemberSplit.ofLines (repaired .default "x.gd" content).lines).SelfContained ∧
        let pipeline : Pipeline := ⟨stagesOf .default, countersOf .default⟩
        (MemberSplit.ofLines (pipeline.run "x.gd" content).1.refresh.lines).ranks.Pairwise
          (· ≤ ·) := by
  have accepted : ofConfig .default = .ok ⟨stagesOf .default, countersOf .default⟩ := rfl
  have contained :
      (MemberSplit.ofLines (repaired .default "x.gd"
        "var _b = 2\n# speed\n@export\nvar a = 1\nfunc f():\n\tpass\n".toList).lines).SelfContained := by
    decide +kernel
  exact ⟨accepted, contained, (run_reads_in_bucket_order accepted rfl "x.gd" _ contained).2⟩

/--
An annotation that a blank line parts from its field is left with the member
above, and a reader then finds a private field before a public one.
-/
theorem run_parts_annotation_and_breaks_bucket_order :
    ofConfig .default = .ok ⟨stagesOf .default, countersOf .default⟩ ∧
      let pipeline : Pipeline := ⟨stagesOf .default, countersOf .default⟩
      let content := "var b = 1\n@export\n\nvar _a = 2\n".toList
      (pipeline.run "x.gd" content).1.render = "var _a = 2\n\nvar b = 1\n@export\n".toList ∧
        (MemberSplit.ofLines (pipeline.run "x.gd" content).1.refresh.lines).ranks = [7, 6] := by
  refine ⟨rfl, ?_, ?_⟩
  · decide +kernel
  · decide +kernel

end Pipeline

end ScriptUplift
