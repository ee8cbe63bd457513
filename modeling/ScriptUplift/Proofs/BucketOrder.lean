import Mathlib.Data.List.Basic
import Mathlib.Tactic.Common
import ScriptUplift.Proofs.MemberOrder
import ScriptUplift.Proofs.Settled

namespace ScriptUplift

/-!
# Member order is a stable sort by bucket

Every member has one head, and the heads of the members are the heads of the
script in their order.  Up to blank lines the canonical order is the prelude
followed by the members, stably sorted by bucket.  The blank lines are settled as
well: the prelude and the buckets are blocks that begin and end with text, and
one separator stands between two of them.
-/

/-- The lines that are not blank. -/
def visibleLines
    (lines : List Line) :
    List Line :=
  lines.filter (!·.isBlank)

@[simp] theorem visibleLines_append
    (first second : List Line) :
    visibleLines (first ++ second) = visibleLines first ++ visibleLines second :=
  List.filter_append ..

/-- A member as it is cut: a lead without blank lines, and one line that begins it. -/
structure Member.Headed
    (member : Member) :
    Prop where
  leadHead : ∀ line ∈ member.lead, line.isHead = false
  leadText : ∀ line ∈ member.lead, line.isBlank = false
  head : member.head.isHead = true
  body : ∀ line ∈ member.body, line.isHead = false

theorem Member.Headed.filter_isHead
    {member : Member}
    (headed : member.Headed) :
    member.lines.filter (·.isHead) = [member.head] := by
  have noneInLead : member.lead.filter (·.isHead) = [] := by
    simpa using headed.leadHead
  have noneInBody : member.body.filter (·.isHead) = [] := by
    simpa using headed.body
  rw [Member.lines, List.filter_append, List.filter_cons_of_pos headed.head, noneInLead,
    noneInBody]
  rfl

theorem filter_isHead_flatMap_lines
    {members : List Member}
    (headed : ∀ member ∈ members, member.Headed) :
    (members.flatMap Member.lines).filter (·.isHead) = members.map (·.head) := by
  induction members with
  | nil =>
      rfl
  | cons member rest inductionHypothesis =>
      obtain ⟨own, others⟩ := List.forall_mem_cons.mp headed
      rw [List.flatMap_cons, List.filter_append, own.filter_isHead, inductionHypothesis others]
      rfl

namespace MemberSplit

theorem mem_cutLead
    {pending : List Line}
    {line : Line}
    (inLead : line ∈ (cutLead pending).2) :
    line ∈ pending ∧ line.isBlank = false := by
  have inBlock : line ∈ pending.reverse.takeWhile (!·.isBlank) := by
    rw [← List.mem_reverse]
    exact List.dropWhile_subset _ inLead
  have above := (List.takeWhile_prefix _).subset inBlock
  have text := List.mem_takeWhile_imp inBlock
  exact ⟨List.mem_reverse.mp above, by simpa using text⟩

/-- Cutting puts every line that begins a member at the head of one. -/
theorem cut_headed
    {inMember : Bool}
    {pending lines : List Line}
    (loose : ∀ line ∈ pending, line.isHead = false) :
    (∀ line ∈ (cut inMember pending lines).prelude, line.isHead = false) ∧
      ∀ member ∈ (cut inMember pending lines).members, member.Headed := by
  fun_induction cut inMember pending lines with
  | case1 inMember pending =>
      exact ⟨loose, by simp⟩
  | case2 inMember pending line rest isHead above lead leadCut inductionHypothesis =>
      obtain ⟨looseBody, restHeaded⟩ := inductionHypothesis (by simp)
      have aboveLoose : ∀ line ∈ above, line.isHead = false := by
        intro other isAbove
        have cutParts := cutLead_append pending
        rw [leadCut] at cutParts
        exact loose other (cutParts ▸ List.mem_append_left _ isAbove)
      have inLead {other : Line} (isLead : other ∈ lead) :
          other ∈ pending ∧ other.isBlank = false := by
        apply mem_cutLead
        rwa [leadCut]
      refine ⟨?_, ?_⟩
      · simpa [push, start] using aboveLoose
      · intro member isMember
        rcases List.mem_cons.mp isMember with rfl | inRest
        · exact ⟨fun _ isLead => loose _ (inLead isLead).1, fun _ isLead => (inLead isLead).2,
            isHead, looseBody⟩
        · exact restHeaded member inRest
  | case3 inMember pending line rest notHead nested inductionHypothesis =>
      obtain ⟨looseRest, restHeaded⟩ := inductionHypothesis (by simp)
      refine ⟨?_, restHeaded⟩
      intro other isOther
      simp only [push, List.append_assoc, List.singleton_append, List.mem_append,
        List.mem_cons] at isOther
      rcases isOther with isPending | rfl | inRest
      · exact loose other isPending
      · simpa using notHead
      · exact looseRest other inRest
  | case4 inMember pending line rest notHead notNested inductionHypothesis =>
      apply inductionHypothesis
      intro other isOther
      rcases List.mem_append.mp isOther with isPending | isLine
      · exact loose other isPending
      · rw [List.mem_singleton.mp isLine]
        simpa using notHead

theorem headed_of_mem_ofLines
    {lines : List Line}
    {member : Member}
    (isMember : member ∈ (ofLines lines).members) :
    member.Headed :=
  (cut_headed (by simp)).2 member isMember

theorem bucket_mem_of_mem_ofLines
    {lines : List Line}
    {member : Member}
    (isMember : member ∈ (ofLines lines).members) :
    member.bucket ∈ Bucket.ofMembers :=
  Line.bucket_mem_ofMembers (headed_of_mem_ofLines isMember).head

theorem filter_isHead_prelude
    (lines : List Line) :
    (ofLines lines).prelude.filter (·.isHead) = [] := by
  rw [List.filter_eq_nil_iff]
  intro line isAbove
  rw [(cut_headed (by simp)).1 line isAbove]
  exact Bool.false_ne_true

/-- The heads of the members are the lines that can begin one, in their order. -/
theorem heads_ofLines
    (lines : List Line) :
    (ofLines lines).members.map (·.head) = lines.filter (·.isHead) := by
  conv_rhs => rw [← ofLines_lines lines]
  rw [List.filter_append, filter_isHead_prelude,
    filter_isHead_flatMap_lines fun _ => headed_of_mem_ofLines]
  rfl

end MemberSplit

theorem Bucket.eq_of_rank_eq
    {first second : Bucket}
    (same : first.rank = second.rank) :
    first = second := by
  revert same
  cases first <;> cases second <;> decide

namespace Canonical

/-- Whether a member may stand before another one. -/
def precedes
    (first second : Member) :
    Bool :=
  decide (first.bucket.rank ≤ second.bucket.rank)

/-- The members sorted by bucket, those of one bucket in their old order. -/
def sortedMembers
    (members : List Member) :
    List Member :=
  members.mergeSort precedes

theorem precedes_trans
    (first second third : Member)
    (early : precedes first second = true)
    (late : precedes second third = true) :
    precedes first third = true := by
  simp only [precedes, decide_eq_true_eq] at early late ⊢
  exact Nat.le_trans early late

theorem precedes_total
    (first second : Member) :
    (precedes first second || precedes second first) = true := by
  simp only [precedes, Bool.or_eq_true, decide_eq_true_eq]
  exact Nat.le_total _ _

/-- Sorted members are given by the members of each bucket. -/
theorem eq_of_sorted_of_membersOf
    {first second : List Member}
    (firstSorted : first.Pairwise (precedes · · = true))
    (secondSorted : second.Pairwise (precedes · · = true))
    (same : ∀ bucket, membersOf first bucket = membersOf second bucket) :
    first = second := by
  have members {one other : List Member}
      (agree : ∀ bucket, membersOf one bucket = membersOf other bucket)
      {member : Member} (isMember : member ∈ one) :
      member ∈ other := by
    have own : member ∈ membersOf one member.bucket :=
      List.mem_filter.mpr ⟨isMember, by simp⟩
    rw [agree] at own
    exact List.mem_of_mem_filter own
  induction first generalizing second with
  | nil =>
      cases second with
      | nil =>
          rfl
      | cons member rest =>
          have absent : member ∈ ([] : List Member) :=
            members (fun bucket => (same bucket).symm) List.mem_cons_self
          simp at absent
  | cons least rest inductionHypothesis =>
      cases second with
      | nil =>
          have absent : least ∈ ([] : List Member) := members same List.mem_cons_self
          simp at absent
      | cons other others =>
          obtain ⟨leastFirst, restSorted⟩ := List.pairwise_cons.mp firstSorted
          obtain ⟨otherFirst, othersSorted⟩ := List.pairwise_cons.mp secondSorted
          -- Each head is among the members of the other list, so that neither rank is smaller.
          have notAbove : other.bucket.rank ≤ least.bucket.rank := by
            rcases List.mem_cons.mp (members same (List.mem_cons_self (a := least))) with
              rfl | inOthers
            · exact Nat.le_refl _
            · simpa [precedes] using otherFirst least inOthers
          have notBelow : least.bucket.rank ≤ other.bucket.rank := by
            rcases List.mem_cons.mp
                (members (fun bucket => (same bucket).symm) (List.mem_cons_self (a := other))) with
              rfl | inRest
            · exact Nat.le_refl _
            · simpa [precedes] using leastFirst other inRest
          have sameBucket : other.bucket = least.bucket :=
            Bucket.eq_of_rank_eq (Nat.le_antisymm notAbove notBelow)
          have own := same least.bucket
          simp only [membersOf, List.filter_cons, sameBucket, beq_self_eq_true, if_true,
            List.cons.injEq] at own
          obtain ⟨rfl, ownRest⟩ := own
          rw [inductionHypothesis restSorted othersSorted]
          intro bucket
          have whole := same bucket
          simp only [membersOf, List.filter_cons] at whole ⊢
          split at whole
          · exact (List.cons.inj whole).2
          · exact whole

/-- A rearrangement that keeps the order inside every bucket keeps the members of a bucket. -/
theorem membersOf_eq_of_perm
    {members rearranged : List Member}
    (perm : rearranged.Perm members)
    {bucket : Bucket}
    (kept : (membersOf members bucket).Sublist rearranged) :
    membersOf rearranged bucket = membersOf members bucket := by
  have keptInside : (membersOf members bucket).Sublist (membersOf rearranged bucket) := by
    have filtered := kept.filter (·.bucket == bucket)
    simpa [membersOf] using filtered
  exact (keptInside.eq_of_length (perm.filter _).length_eq.symm).symm

theorem pairwise_membersOf
    (members : List Member)
    (bucket : Bucket) :
    (membersOf members bucket).Pairwise (precedes · · = true) := by
  apply List.pairwise_of_forall_mem_list
  intro first isFirst second isSecond
  have firstBucket : first.bucket = bucket := by
    simpa using (List.mem_filter.mp isFirst).2
  have secondBucket : second.bucket = bucket := by
    simpa using (List.mem_filter.mp isSecond).2
  simp [precedes, firstBucket, secondBucket]

/-- Collecting members bucket by bucket is stable sorting. -/
theorem flatMap_membersOf_eq_sortedMembers
    {members : List Member}
    (placed : ∀ member ∈ members, member.bucket ∈ Bucket.ofMembers) :
    Bucket.ofMembers.flatMap (membersOf members) = sortedMembers members := by
  have collectedPerm : (Bucket.ofMembers.flatMap (membersOf members)).Perm members := by
    have collected := flatMap_membersOf_perm members (by decide : Bucket.ofMembers.Nodup)
    rwa [List.filter_eq_self.mpr] at collected
    intro member isMember
    exact decide_eq_true (placed member isMember)
  have sortedPerm : (sortedMembers members).Perm members :=
    List.mergeSort_perm _ _
  apply eq_of_sorted_of_membersOf
  · rw [List.pairwise_flatMap]
    refine ⟨fun bucket _ => pairwise_membersOf members bucket, ?_⟩
    have ranked : Bucket.ofMembers.Pairwise fun first second => first.rank ≤ second.rank := by
      decide
    apply ranked.imp
    intro first second inOrder early isEarly late isLate
    have earlyBucket : early.bucket = first := by
      simpa using (List.mem_filter.mp isEarly).2
    have lateBucket : late.bucket = second := by
      simpa using (List.mem_filter.mp isLate).2
    simpa [precedes, earlyBucket, lateBucket] using inOrder
  · exact List.pairwise_mergeSort precedes_trans precedes_total members
  · intro bucket
    have collectedKeeps :
        (membersOf members bucket).Sublist (Bucket.ofMembers.flatMap (membersOf members)) := by
      by_cases known : bucket ∈ Bucket.ofMembers
      · exact List.sublist_flatten_of_mem (List.mem_map_of_mem known)
      · have empty : membersOf members bucket = [] := by
          rw [membersOf, List.filter_eq_nil_iff]
          intro member isMember isOwn
          exact known ((by simpa using isOwn : member.bucket = bucket) ▸ placed member isMember)
        rw [empty]
        exact List.nil_sublist _
    have sortedKeeps : (membersOf members bucket).Sublist (sortedMembers members) :=
      List.sublist_mergeSort precedes_trans precedes_total (pairwise_membersOf members bucket)
        List.filter_sublist
    rw [membersOf_eq_of_perm collectedPerm collectedKeeps,
      membersOf_eq_of_perm sortedPerm sortedKeeps]

@[simp] theorem visibleLines_withoutTrailingBlanks
    (lines : List Line) :
    visibleLines (withoutTrailingBlanks lines) = visibleLines lines := by
  obtain ⟨blanks, blank, parts⟩ := exists_blanks_withoutTrailingBlanks lines
  have nothing : visibleLines blanks = [] := by
    simpa [visibleLines] using blank
  conv_rhs => rw [parts]
  rw [visibleLines_append, nothing, List.append_nil]

theorem visibleLines_bucketLines
    (members : List Member) :
    visibleLines (bucketLines members) = visibleLines (members.flatMap Member.lines) := by
  fun_induction bucketLines members with
  | case1 =>
      rfl
  | case2 last =>
      simp
  | case3 member rest _ inductionHypothesis =>
      have noText :
          visibleLines
            (if member.head.opens && !endsBlank member.lines then [separator] else []) = [] := by
        split <;> rfl
      rw [visibleLines_append, visibleLines_append, noText, inductionHypothesis, List.append_nil,
        List.flatMap_cons, visibleLines_append]

theorem visibleLines_addBucket
    (members : List Member)
    (above : List Line)
    (bucket : Bucket) :
    visibleLines (addBucket members above bucket) =
      visibleLines above ++
        visibleLines ((membersOf members bucket).flatMap Member.lines) := by
  rw [← visibleLines_bucketLines]
  unfold addBucket
  dsimp only
  split
  · rename_i empty
    rw [List.isEmpty_iff.mp empty]
    simp [bucketLines, visibleLines]
  · split
    · rename_i top
      rw [List.isEmpty_iff.mp top]
      rfl
    · rw [visibleLines_append]
      rfl

/-- Up to blank lines the canonical order is the prelude and the members sorted by bucket. -/
theorem visibleLines_arrange
    {split : MemberSplit}
    (placed : ∀ member ∈ split.members, member.bucket ∈ Bucket.ofMembers) :
    visibleLines (arrange split) =
      visibleLines
        (split.prelude ++ (sortedMembers split.members).flatMap Member.lines) := by
  have added (buckets : List Bucket) (above : List Line) :
      visibleLines (buckets.foldl (addBucket split.members) above) =
        visibleLines above ++
          visibleLines ((buckets.flatMap (membersOf split.members)).flatMap Member.lines) := by
    induction buckets generalizing above with
    | nil =>
        simp [visibleLines]
    | cons bucket rest inductionHypothesis =>
        rw [List.foldl_cons, inductionHypothesis, visibleLines_addBucket]
        simp
  rw [arrange, added, flatMap_membersOf_eq_sortedMembers placed, visibleLines_append,
    visibleLines_withoutTrailingBlanks]

/-- The first line is not blank. -/
def BeginsInText
    (lines : List Line) :
    Prop :=
  ∃ line below, lines = line :: below ∧ line.isBlank = false

/-- The last line is not blank. -/
def EndsInText
    (lines : List Line) :
    Prop :=
  ∃ above line, lines = above ++ [line] ∧ line.isBlank = false

theorem BeginsInText.append
    {first : List Line}
    (begins : BeginsInText first)
    (second : List Line) :
    BeginsInText (first ++ second) := by
  obtain ⟨line, below, rfl, text⟩ := begins
  exact ⟨line, below ++ second, rfl, text⟩

theorem EndsInText.append
    {second : List Line}
    (ends : EndsInText second)
    (first : List Line) :
    EndsInText (first ++ second) := by
  obtain ⟨above, line, rfl, text⟩ := ends
  exact ⟨first ++ above, line, (List.append_assoc ..).symm, text⟩

theorem withoutTrailingBlanks_eq_nil_iff
    (lines : List Line) :
    withoutTrailingBlanks lines = [] ↔ ∀ line ∈ lines, line.isBlank = true := by
  simp [withoutTrailingBlanks, List.dropWhile_eq_nil_iff]

theorem endsInText_withoutTrailingBlanks
    {lines : List Line}
    (notEmpty : withoutTrailingBlanks lines ≠ []) :
    EndsInText (withoutTrailingBlanks lines) := by
  have kept : lines.reverse.dropWhile (·.isBlank) ≠ [] := by
    simpa [withoutTrailingBlanks] using notEmpty
  obtain ⟨line, below, shape⟩ := List.exists_cons_of_ne_nil kept
  refine ⟨below.reverse, line, by rw [withoutTrailingBlanks, shape, List.reverse_cons], ?_⟩
  have text := List.head_dropWhile_not Line.isBlank kept
  simpa [shape] using text

theorem beginsInText_withoutTrailingBlanks
    {lines : List Line}
    (begins : BeginsInText lines) :
    BeginsInText (withoutTrailingBlanks lines) := by
  obtain ⟨blanks, blank, parts⟩ := exists_blanks_withoutTrailingBlanks lines
  obtain ⟨line, below, shape, text⟩ := begins
  cases kept : withoutTrailingBlanks lines with
  | nil =>
      have isBlank : line ∈ blanks := by
        rw [kept, List.nil_append, shape] at parts
        simp [← parts]
      simp [blank line isBlank] at text
  | cons first rest =>
      rw [kept, shape, List.cons_append, List.cons.injEq] at parts
      exact ⟨first, rest, rfl, parts.1 ▸ text⟩

theorem beginsInText_lines
    {member : Member}
    (headed : member.Headed)
    (text : member.head.isBlank = false) :
    BeginsInText member.lines := by
  unfold Member.lines
  cases lead : member.lead with
  | nil =>
      exact ⟨member.head, member.body, rfl, text⟩
  | cons first rest =>
      exact ⟨first, _, rfl, headed.leadText first (lead ▸ List.mem_cons_self)⟩

/-- The lines of a bucket begin and end with text when every head is text. -/
theorem bucketLines_text
    {members : List Member}
    (notEmpty : members ≠ [])
    (headed : ∀ member ∈ members, member.Headed)
    (text : ∀ member ∈ members, member.head.isBlank = false) :
    BeginsInText (bucketLines members) ∧ EndsInText (bucketLines members) := by
  fun_induction bucketLines members with
  | case1 =>
      exact absurd rfl notEmpty
  | case2 last =>
      have begins := beginsInText_lines (headed last (by simp)) (text last (by simp))
      refine ⟨beginsInText_withoutTrailingBlanks begins, endsInText_withoutTrailingBlanks ?_⟩
      obtain ⟨line, below, shape, _⟩ := beginsInText_withoutTrailingBlanks begins
      rw [shape]
      exact List.cons_ne_nil _ _
  | case3 member rest several inductionHypothesis =>
      obtain ⟨ownHeaded, restHeaded⟩ := List.forall_mem_cons.mp headed
      obtain ⟨ownText, restText⟩ := List.forall_mem_cons.mp text
      have restNotEmpty : rest ≠ [] := by
        rintro rfl
        exact several rfl
      obtain ⟨_, ends⟩ := inductionHypothesis restNotEmpty restHeaded restText
      refine ⟨?_, ends.append _⟩
      exact ((beginsInText_lines ownHeaded ownText).append _).append _

/-- The blocks of the buckets that have members, in the order of the buckets. -/
def bucketBlocks
    (members : List Member)
    (buckets : List Bucket) :
    List (List Line) :=
  (buckets.filter fun bucket => !(membersOf members bucket).isEmpty).map fun bucket =>
    bucketLines (membersOf members bucket)

/-- Put blocks together with one separator between two of them, from the first that has lines. -/
def joinBlocks
    (blocks : List (List Line)) :
    List Line :=
  [separator].intercalate (blocks.dropWhile List.isEmpty)

theorem intercalate_concat
    {blocks : List (List Line)}
    (notEmpty : blocks ≠ [])
    (last : List Line) :
    [separator].intercalate (blocks ++ [last]) =
      [separator].intercalate blocks ++ separator :: last := by
  induction blocks with
  | nil =>
      exact absurd rfl notEmpty
  | cons first rest inductionHypothesis =>
      cases rest with
      | nil =>
          simp
      | cons second others =>
          rw [List.cons_append, List.cons_append, List.intercalate_cons_cons,
            List.intercalate_cons_cons, ← List.cons_append, inductionHypothesis (by simp)]
          simp

theorem joinBlocks_singleton
    (block : List Line) :
    joinBlocks [block] = block := by
  cases block <;> simp [joinBlocks]

/-- Blocks join to nothing when they have no lines. -/
theorem joinBlocks_eq_nil_iff
    (blocks : List (List Line)) :
    joinBlocks blocks = [] ↔ blocks.dropWhile List.isEmpty = [] := by
  unfold joinBlocks
  cases shape : blocks.dropWhile List.isEmpty with
  | nil =>
      simp
  | cons first rest =>
      have kept : blocks.dropWhile List.isEmpty ≠ [] := by
        simp [shape]
      have filled : first.isEmpty = false := by
        simpa [shape] using List.head_dropWhile_not List.isEmpty kept
      have notEmpty : first ≠ [] := by
        simpa using filled
      cases rest <;> simp [notEmpty]

/-- A bucket with members adds its block, after one separator unless nothing stands above. -/
theorem addBucket_joinBlocks
    {members : List Member}
    {bucket : Bucket}
    (someMember : membersOf members bucket ≠ [])
    (blocks : List (List Line)) :
    addBucket members (joinBlocks blocks) bucket =
      joinBlocks (blocks ++ [bucketLines (membersOf members bucket)]) := by
  have notEmpty : (membersOf members bucket).isEmpty = false := by
    simpa using someMember
  have emptyIff := joinBlocks_eq_nil_iff blocks
  unfold addBucket
  simp only [notEmpty, Bool.false_eq_true, if_false]
  split
  · rename_i nothing
    have noLines := emptyIff.mp (List.isEmpty_iff.mp nothing)
    have only : joinBlocks (blocks ++ [bucketLines (membersOf members bucket)]) =
        joinBlocks [bucketLines (membersOf members bucket)] := by
      simp [joinBlocks, List.dropWhile_append, noLines]
    rw [only, joinBlocks_singleton]
  · rename_i something
    have someLines : blocks.dropWhile List.isEmpty ≠ [] := by
      rwa [List.isEmpty_iff, emptyIff] at something
    have kept : (blocks.dropWhile List.isEmpty).isEmpty = false := by
      simpa using someLines
    unfold joinBlocks
    rw [List.dropWhile_append, kept]
    exact (intercalate_concat someLines _).symm

/-- Adding buckets adds the blocks of those that have members. -/
theorem foldl_addBucket_joinBlocks
    (members : List Member)
    (buckets : List Bucket)
    (blocks : List (List Line)) :
    buckets.foldl (addBucket members) (joinBlocks blocks) =
      joinBlocks (blocks ++ bucketBlocks members buckets) := by
  induction buckets generalizing blocks with
  | nil =>
      simp [bucketBlocks]
  | cons bucket rest inductionHypothesis =>
      rw [List.foldl_cons]
      by_cases empty : membersOf members bucket = []
      · have unchanged : addBucket members (joinBlocks blocks) bucket = joinBlocks blocks := by
          simp [addBucket, empty]
        have skipped : bucketBlocks members (bucket :: rest) = bucketBlocks members rest := by
          simp [bucketBlocks, empty]
        rw [unchanged, skipped]
        exact inductionHypothesis blocks
      · have taken :
            bucketBlocks members (bucket :: rest) =
              bucketLines (membersOf members bucket) :: bucketBlocks members rest := by
          simp [bucketBlocks, empty]
        rw [addBucket_joinBlocks empty, taken, inductionHypothesis, List.append_assoc]
        rfl

/-- The canonical order joins the block of the prelude and the blocks of the buckets. -/
theorem arrange_eq_joinBlocks
    (split : MemberSplit) :
    arrange split =
      joinBlocks
        (withoutTrailingBlanks split.prelude :: bucketBlocks split.members Bucket.ofMembers) := by
  have joined :=
    foldl_addBucket_joinBlocks split.members Bucket.ofMembers
      [withoutTrailingBlanks split.prelude]
  rwa [joinBlocks_singleton] at joined

end Canonical

theorem Line.isStatement_of_isHead
    {line : Line}
    (isHead : line.isHead = true) :
    line.isStatement = true := by
  simp only [Line.isHead, Bool.and_eq_true, Bool.not_eq_true'] at isHead
  simp [Line.isStatement, isHead.1.1.1, isHead.2]

/-- No blank line begins a member of a classified file. -/
theorem Line.isBlank_eq_false_of_isHead
    {unit : IndentUnit}
    {lines : List Line}
    {line : Line}
    (member : line ∈ refreshLines unit lines)
    (isHead : line.isHead = true) :
    line.isBlank = false := by
  have text := isBlank_eq_false_of_isStatement member (Line.isStatement_of_isHead isHead)
  simp [Line.isBlank, text]

namespace Source

/-- Member order of a file with members and without orphans leaves the texts of the canonical order. -/
theorem texts_canonicalStage
    {source : Source}
    (noOrphan : ∀ line ∈ source.lines, line.category ≠ .orphan)
    (someMember : (MemberSplit.ofLines source.lines).members ≠ []) :
    source.canonicalStage.1.texts =
      (Canonical.arrange (MemberSplit.ofLines source.lines)).map (·.text) := by
  rcases canonicalStage_cases noOrphan with ⟨empty | sameTexts, same⟩ | ⟨_, changed⟩
  · exact absurd empty someMember
  · rw [same, sameTexts]
    rfl
  · rw [changed]
    rfl

theorem Consistent.isBlank_eq_false_of_mem_members
    {source : Source}
    (consistent : source.Consistent)
    {member : Member}
    (isMember : member ∈ (MemberSplit.ofLines source.lines).members) :
    member.head.isBlank = false := by
  have isLine : member.head ∈ source.lines.filter (·.isHead) := by
    rw [← MemberSplit.heads_ofLines]
    exact List.mem_map_of_mem isMember
  obtain ⟨inFile, isHead⟩ := List.mem_filter.mp isLine
  rw [← consistent.fresh] at inFile
  exact Line.isBlank_eq_false_of_isHead inFile isHead

/--
Member order is a stable sort by bucket.  Cutting loses no line and gives every
member one head.  The lines member order builds are, up to blank lines, the
prelude and the stably sorted members.  They are blocks, one of the prelude and
one for each bucket that has members, with one separator between two of them; a
prelude that is not all blank ends with text, and a block begins and ends with
text unless a blank line begins one of its members, which happens in no
classified file.
-/
theorem canonicalStage_sorts_members_stably :
    (∀ lines : List Line,
      let split := MemberSplit.ofLines lines
      split.prelude ++ split.members.flatMap Member.lines = lines ∧
        ∀ member ∈ split.members, member.lines.countP (·.isHead) = 1) ∧
      ∀ source : Source,
        let split := MemberSplit.ofLines source.lines
        let arranged := Canonical.arrange split
        let prelude := Canonical.withoutTrailingBlanks split.prelude
        (∀ line ∈ source.lines, line.category ≠ .orphan) →
          split.members ≠ [] →
            source.canonicalStage.2 = none ∧
              source.canonicalStage.1.texts = arranged.map (·.text) ∧
              visibleLines arranged =
                visibleLines
                  (split.prelude ++
                    (Canonical.sortedMembers split.members).flatMap Member.lines) ∧
              arranged =
                Canonical.joinBlocks
                  (prelude :: Canonical.bucketBlocks split.members Bucket.ofMembers) ∧
              ((∃ line ∈ split.prelude, line.isBlank = false) → Canonical.EndsInText prelude) ∧
              (∀ bucket,
                let own := Canonical.membersOf split.members bucket
                own ≠ [] →
                  (∀ member ∈ own, member.head.isBlank = false) →
                    Canonical.BeginsInText (Canonical.bucketLines own) ∧
                      Canonical.EndsInText (Canonical.bucketLines own)) ∧
              (source.Consistent → ∀ member ∈ split.members, member.head.isBlank = false) := by
  refine ⟨?_, ?_⟩
  · intro lines split
    refine ⟨MemberSplit.ofLines_lines lines, ?_⟩
    intro member isMember
    rw [List.countP_eq_length_filter,
      (MemberSplit.headed_of_mem_ofLines isMember).filter_isHead]
    rfl
  · intro source split arranged prelude noOrphan someMember
    have accepted : source.canonicalStage.2 = none := by
      rw [← Option.not_isSome_iff_eq_none, canonicalStage_refuses_iff]
      rintro ⟨line, member, orphan⟩
      exact noOrphan line member orphan
    refine ⟨accepted, texts_canonicalStage noOrphan someMember, ?_,
      Canonical.arrange_eq_joinBlocks split, ?_, ?_, ?_⟩
    · exact Canonical.visibleLines_arrange fun _ => MemberSplit.bucket_mem_of_mem_ofLines
    · rintro ⟨line, isAbove, text⟩
      apply Canonical.endsInText_withoutTrailingBlanks
      intro nothing
      rw [(Canonical.withoutTrailingBlanks_eq_nil_iff _).mp nothing line isAbove] at text
      cases text
    · intro bucket own someOwn text
      exact Canonical.bucketLines_text someOwn
        (fun _ isOwn => MemberSplit.headed_of_mem_ofLines (List.mem_of_mem_filter isOwn)) text
    · exact fun consistent _ => consistent.isBlank_eq_false_of_mem_members

/-- A field goes above a method, each with the lines that belong to it, under the comment on top. -/
theorem canonicalStage_sorts_field_above_method :
    let source := (ofContent "a.gd" "# top\n\nfunc f():\n\tpass\n# size\nvar a".toList).refresh
    let split := MemberSplit.ofLines source.lines
    (∀ line ∈ source.lines, line.category ≠ .orphan) ∧
      split.members ≠ [] ∧
      (∀ member ∈ split.members, member.head.isBlank = false) ∧
      source.canonicalStage.2 = none ∧
      source.canonicalStage.1.texts =
        ["# top", "", "# size", "var a", "", "func f():", "\tpass"].map String.toList ∧
      Canonical.EndsInText (Canonical.withoutTrailingBlanks split.prelude) := by
  intro source split
  have consistent : source.Consistent := refresh_consistent _
  have noOrphan : ∀ line ∈ source.lines, line.category ≠ .orphan :=
    fun _ => consistent.category_ne_orphan
  have someMember : split.members ≠ [] := by
    decide +kernel
  obtain ⟨accepted, _, _, _, preludeEnds, _, text⟩ :=
    canonicalStage_sorts_members_stably.2 source noOrphan someMember
  exact ⟨noOrphan, someMember, text consistent, accepted, by decide +kernel,
    preludeEnds (by decide +kernel)⟩

end Source

end ScriptUplift
