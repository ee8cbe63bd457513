import Mathlib.Data.List.Pairwise
import Mathlib.Tactic.Common
import ScriptUplift.Proofs.CutAgain

namespace ScriptUplift

/-!
# Arranging arranged members changes nothing

Member order puts every member down as it was, but for the blank lines at its
end: the last member of a bucket is trimmed and a separator follows it, and a
block is set off from the next member of its bucket.  Members that were put down
so are cut as they stand, and a second arrangement puts them down in the same
way.
-/

namespace Member

/-- A member with more lines at its end. -/
def followedBy
    (member : Member)
    (lines : List Line) :
    Member :=
  { member with body := member.body ++ lines }

/-- A member without the blank lines at its end. -/
def trimmed
    (member : Member) :
    Member :=
  { member with body := Canonical.withoutTrailingBlanks member.body }

@[simp] theorem followedBy_nil
    (member : Member) :
    member.followedBy [] = member := by
  simp [followedBy]

@[simp] theorem lines_followedBy
    (member : Member)
    (lines : List Line) :
    (member.followedBy lines).lines = member.lines ++ lines := by
  simp [Member.lines, followedBy]

end Member

namespace Canonical

/-- A line with text stops trimming. -/
theorem withoutTrailingBlanks_append_cons
    {line : Line}
    (text : line.isBlank = false)
    (above below : List Line) :
    withoutTrailingBlanks (above ++ line :: below) =
      above ++ line :: withoutTrailingBlanks below := by
  induction below using List.reverseRecOn with
  | nil =>
      simp [withoutTrailingBlanks, text]
  | append_singleton most last inductionHypothesis =>
      have trim (lines : List Line) : withoutTrailingBlanks lines = lines.rdropWhile (·.isBlank) :=
        rfl
      rw [← List.cons_append, ← List.append_assoc]
      simp only [trim, List.rdropWhile_concat] at inductionHypothesis ⊢
      rw [inductionHypothesis]
      split <;> simp

theorem withoutTrailingBlanks_withoutTrailingBlanks
    (lines : List Line) :
    withoutTrailingBlanks (withoutTrailingBlanks lines) = withoutTrailingBlanks lines :=
  List.rdropWhile_idempotent _ _

theorem withoutTrailingBlanks_concat_separator
    (lines : List Line) :
    withoutTrailingBlanks (lines ++ [separator]) = withoutTrailingBlanks lines :=
  List.rdropWhile_concat_pos _ _ _ rfl

theorem lines_trimmed
    {member : Member}
    (text : member.head.isBlank = false) :
    member.trimmed.lines = withoutTrailingBlanks member.lines :=
  (withoutTrailingBlanks_append_cons text _ _).symm

/-- A block that ends with text is set off from the next member of its bucket. -/
def setOff
    (member : Member) :
    Member :=
  member.followedBy
    (if member.head.opens && !endsBlank member.lines then [separator] else [])

/-- The last member of a bucket is set off from the next bucket. -/
def closeBucket
    (member : Member) :
    Member :=
  member.trimmed.followedBy [separator]

@[simp] theorem bucket_setOff
    (member : Member) :
    (setOff member).bucket = member.bucket :=
  rfl

@[simp] theorem bucket_closeBucket
    (member : Member) :
    (closeBucket member).bucket = member.bucket :=
  rfl

theorem setOff_setOff
    (member : Member) :
    setOff (setOff member) = setOff member := by
  by_cases needed : (member.head.opens && !endsBlank member.lines) = true
  · have isSet : setOff member = member.followedBy [separator] := by
      rw [setOff, if_pos needed]
    have done : endsBlank (setOff member).lines = true := by
      rw [isSet, Member.lines_followedBy, endsBlank, List.getLast?_concat]
      rfl
    conv_lhs => rw [setOff, done]
    simp
  · have isSame : setOff member = member := by
      rw [setOff, if_neg needed, Member.followedBy_nil]
    rw [isSame, isSame]

theorem closeBucket_closeBucket
    (member : Member) :
    closeBucket (closeBucket member) = closeBucket member := by
  simp [closeBucket, Member.followedBy, Member.trimmed, withoutTrailingBlanks_concat_separator,
    withoutTrailingBlanks_withoutTrailingBlanks]

/-- Members as they are put down one after the other. -/
def settle : List Member → List Member
  | [] =>
      []
  | [last] =>
      [last.trimmed]
  | member :: next :: rest =>
      (if member.bucket == next.bucket then setOff member else closeBucket member) ::
        settle (next :: rest)

/-- What stands above the first member: the prelude, set off by a separator. -/
def top
    (prelude : List Line) :
    List Line :=
  if (withoutTrailingBlanks prelude).isEmpty then []
  else withoutTrailingBlanks prelude ++ [separator]

/-! ## What member order puts down -/

/-- Settling keeps what does not depend on bodies. -/
theorem map_settle
    {Front : Type}
    {front : Member → Front}
    (blind : ∀ member body, front { member with body := body } = front member)
    (members : List Member) :
    (settle members).map front = members.map front := by
  fun_induction settle members with
  | case1 =>
      rfl
  | case2 last =>
      rw [List.map_singleton, Member.trimmed, blind, List.map_singleton]
  | case3 member next rest inductionHypothesis =>
      rw [List.map_cons, inductionHypothesis, List.map_cons (l := next :: rest)]
      split
      · rw [setOff, Member.followedBy, blind]
      · rw [closeBucket, Member.followedBy, blind, Member.trimmed, blind]

theorem buckets_settle
    (members : List Member) :
    (settle members).map (·.bucket) = members.map (·.bucket) :=
  map_settle (fun _ _ => rfl) members

/-- The members of one bucket and those below are settled block by block. -/
theorem lines_settle_append
    {bucket : Bucket}
    {own : List Member}
    (someMember : own ≠ [])
    (isOwn : ∀ member ∈ own, member.bucket = bucket)
    (text : ∀ member ∈ own, member.head.isBlank = false)
    {others : List Member}
    (apart : ∀ member ∈ others, member.bucket ≠ bucket) :
    (settle (own ++ others)).flatMap Member.lines =
      bucketLines own ++
        (if others.isEmpty then [] else separator :: (settle others).flatMap Member.lines) := by
  fun_induction bucketLines own with
  | case1 =>
      exact absurd rfl someMember
  | case2 last =>
      have lastText := text last (by simp)
      cases others with
      | nil =>
          simp [settle, lines_trimmed lastText]
      | cons next rest =>
          have border : (last.bucket == next.bucket) = false := by
            rw [isOwn last (by simp), beq_eq_false_iff_ne]
            exact (apart next (by simp)).symm
          simp [settle, border, closeBucket, lines_trimmed lastText]
  | case3 member rest several inductionHypothesis =>
      obtain ⟨next, below, rfl⟩ := List.exists_cons_of_ne_nil (several ·)
      obtain ⟨ownBucket, restBucket⟩ := List.forall_mem_cons.mp isOwn
      have within : (member.bucket == next.bucket) = true := by
        rw [ownBucket, restBucket next (by simp), beq_self_eq_true]
      have settled := inductionHypothesis (by simp) restBucket (List.forall_mem_cons.mp text).2
      rw [List.cons_append] at settled ⊢
      rw [List.cons_append, settle, if_pos within, List.flatMap_cons, settled, setOff,
        Member.lines_followedBy]
      simp

theorem bucketBlocks_eq_nil_iff
    (members : List Member)
    (buckets : List Bucket) :
    bucketBlocks members buckets = [] ↔ buckets.flatMap (membersOf members) = [] := by
  simp [bucketBlocks, List.filter_eq_nil_iff]

/-- The blocks of the buckets hold the settled members. -/
theorem intercalate_bucketBlocks
    {members : List Member}
    (text : ∀ member ∈ members, member.head.isBlank = false)
    {buckets : List Bucket}
    (distinct : buckets.Nodup) :
    [separator].intercalate (bucketBlocks members buckets) =
      (settle (buckets.flatMap (membersOf members))).flatMap Member.lines := by
  induction buckets with
  | nil =>
      rfl
  | cons bucket rest inductionHypothesis =>
      obtain ⟨absent, restDistinct⟩ := List.nodup_cons.mp distinct
      by_cases empty : membersOf members bucket = []
      · have skipped : bucketBlocks members (bucket :: rest) = bucketBlocks members rest := by
          simp [bucketBlocks, empty]
        rw [skipped, inductionHypothesis restDistinct, List.flatMap_cons, empty, List.nil_append]
      · have taken : bucketBlocks members (bucket :: rest) =
            bucketLines (membersOf members bucket) :: bucketBlocks members rest := by
          simp [bucketBlocks, empty]
        have isOwn : ∀ member ∈ membersOf members bucket, member.bucket = bucket :=
          fun member isMember => by simpa using (List.mem_filter.mp isMember).2
        have apart : ∀ member ∈ rest.flatMap (membersOf members), member.bucket ≠ bucket := by
          rintro member isOther rfl
          obtain ⟨holder, isRest, isMember⟩ := List.mem_flatMap.mp isOther
          have same : member.bucket = holder := by
            simpa using (List.mem_filter.mp isMember).2
          exact absent (same ▸ isRest)
        rw [taken, List.flatMap_cons, lines_settle_append empty isOwn
          (fun member isMember => text member (List.mem_of_mem_filter isMember)) apart,
          ← inductionHypothesis restDistinct]
        have none_iff := bucketBlocks_eq_nil_iff members rest
        cases others : bucketBlocks members rest with
        | nil =>
            simp [none_iff.mp others]
        | cons next below =>
            have someOther : rest.flatMap (membersOf members) ≠ [] := by
              rw [Ne, ← none_iff, others]
              exact List.cons_ne_nil _ _
            rw [List.intercalate_cons_cons, if_neg (by simpa using someOther)]
            simp

/-- Member order puts the settled members below the prelude, sorted by bucket. -/
theorem arrange_eq
    {split : MemberSplit}
    (someMember : split.members ≠ [])
    (headed : ∀ member ∈ split.members, member.Headed)
    (text : ∀ member ∈ split.members, member.head.isBlank = false) :
    arrange split =
      top split.prelude ++ (settle (sortedMembers split.members)).flatMap Member.lines := by
  have collected := flatMap_membersOf_eq_sortedMembers
    fun member isMember => Line.bucket_mem_ofMembers (headed member isMember).head
  have blocks := intercalate_bucketBlocks text (by decide : Bucket.ofMembers.Nodup)
  rw [collected] at blocks
  rw [arrange_eq_joinBlocks, joinBlocks, top, ← blocks]
  have someBlock : bucketBlocks split.members Bucket.ofMembers ≠ [] := by
    rw [Ne, bucketBlocks_eq_nil_iff, collected]
    intro none
    exact someMember (List.perm_nil.mp (none ▸ (List.mergeSort_perm _ _).symm))
  obtain ⟨first, rest, isBlocks⟩ := List.exists_cons_of_ne_nil someBlock
  by_cases nothing : withoutTrailingBlanks split.prelude = []
  · have isBlock : first ∈ bucketBlocks split.members Bucket.ofMembers := by
      rw [isBlocks]
      exact List.mem_cons_self
    obtain ⟨bucket, isBucket, rfl⟩ := List.mem_map.mp isBlock
    have someOwn := (List.mem_filter.mp isBucket).2
    obtain ⟨⟨line, below, shape, _⟩, _⟩ := bucketLines_text
      (by simpa using someOwn : membersOf split.members bucket ≠ [])
      (fun member isOwn => headed member (List.mem_of_mem_filter isOwn))
      (fun member isOwn => text member (List.mem_of_mem_filter isOwn))
    rw [nothing, List.dropWhile_cons_of_pos rfl, isBlocks,
      List.dropWhile_cons_of_neg (by simp [shape])]
    rfl
  · have filled : (withoutTrailingBlanks split.prelude).isEmpty = false := by
      simpa using nothing
    rw [List.dropWhile_cons_of_neg (by simp [filled]), isBlocks, List.intercalate_cons_cons,
      if_neg (by simp [filled])]

/-! ## Settling again -/

/-- Settled members are settled. -/
theorem settle_settle
    (members : List Member) :
    settle (settle members) = settle members := by
  fun_induction settle members with
  | case1 =>
      rfl
  | case2 last =>
      simp [settle, Member.trimmed, withoutTrailingBlanks_withoutTrailingBlanks]
  | case3 member next rest inductionHypothesis =>
      have sameBucket := congrArg List.head? (buckets_settle (next :: rest))
      cases below : settle (next :: rest) with
      | nil =>
          rw [below] at sameBucket
          cases sameBucket
      | cons first others =>
          rw [below] at sameBucket inductionHypothesis
          have sameBucket : first.bucket = next.bucket :=
            Option.some.inj sameBucket
          rw [settle, inductionHypothesis, sameBucket]
          by_cases within : (member.bucket == next.bucket) = true
          · rw [if_pos within, bucket_setOff, if_pos within, setOff_setOff]
          · rw [if_neg within, bucket_closeBucket, if_neg within, closeBucket_closeBucket]

/-- Sorted members stay sorted where they are settled. -/
theorem sortedMembers_settle
    (members : List Member) :
    sortedMembers (settle (sortedMembers members)) = settle (sortedMembers members) := by
  have inOrder (others : List Member) :
      others.Pairwise (precedes · · = true) ↔
        (others.map (·.bucket)).Pairwise fun first second => first.rank ≤ second.rank := by
    rw [List.pairwise_map]
    simp only [precedes, decide_eq_true_eq]
  apply List.mergeSort_of_pairwise
  rw [inOrder, buckets_settle, ← inOrder]
  exact List.pairwise_mergeSort precedes_trans precedes_total members

theorem top_top
    (prelude : List Line) :
    top (top prelude) = top prelude := by
  unfold top
  split
  · rfl
  · rename_i filled
    rw [withoutTrailingBlanks_concat_separator, withoutTrailingBlanks_withoutTrailingBlanks,
      if_neg filled]

/-! ## Cutting what was put down -/

/-- A settled member is one of the members, trimmed or not, with a separator below it or none. -/
theorem exists_of_mem_settle
    {members : List Member}
    {member : Member}
    (isSettled : member ∈ settle members) :
    ∃ before ∈ members, ∃ kept added,
      (kept = before ∨ kept = before.trimmed) ∧ (added = [] ∨ added = [separator]) ∧
        member = kept.followedBy added := by
  fun_induction settle members with
  | case1 =>
      cases isSettled
  | case2 last =>
      rw [List.mem_singleton.mp isSettled]
      exact ⟨last, List.mem_cons_self, last.trimmed, [], .inr rfl, .inl rfl,
        last.trimmed.followedBy_nil.symm⟩
  | case3 first next rest inductionHypothesis =>
      rcases List.mem_cons.mp isSettled with rfl | inRest
      · refine ⟨first, List.mem_cons_self, ?_⟩
        split
        · refine ⟨first, _, .inl rfl, ?_, rfl⟩
          split
          · exact .inr rfl
          · exact .inl rfl
        · exact ⟨first.trimmed, [separator], .inr rfl, .inr rfl, rfl⟩
      · obtain ⟨before, isMember, settled⟩ := inductionHypothesis inRest
        exact ⟨before, List.mem_cons_of_mem _ isMember, settled⟩

theorem mem_of_mem_withoutTrailingBlanks
    {lines : List Line}
    {line : Line}
    (isKept : line ∈ withoutTrailingBlanks lines) :
    line ∈ lines :=
  (List.rdropWhile_prefix _ lines).subset isKept

/-- Settling keeps a member as cutting left it. -/
theorem cut_of_mem_settle
    {members : List Member}
    (cut : ∀ member ∈ members, member.Cut)
    {member : Member}
    (isSettled : member ∈ settle members) :
    member.Cut := by
  obtain ⟨before, isMember, kept, added, isKept, isAdded, rfl⟩ := exists_of_mem_settle isSettled
  have own := cut before isMember
  have addedHead : ∀ line ∈ added, line.isHead = false := by
    rcases isAdded with rfl | rfl <;> simp [separator, Line.isHead, Category.isTrivia]
  rcases isKept with rfl | rfl
  · exact ⟨⟨own.leadHead, own.leadText, own.head,
      List.forall_mem_append.mpr ⟨own.body, addedHead⟩⟩, own.begins⟩
  · have trimmedHead : ∀ line ∈ before.trimmed.body, line.isHead = false :=
      fun line isLine => own.body line (mem_of_mem_withoutTrailingBlanks isLine)
    exact ⟨⟨own.leadHead, own.leadText, own.head,
      List.forall_mem_append.mpr ⟨trimmedHead, addedHead⟩⟩, own.begins⟩

/-- Members of one bucket that close are settled as members that close. -/
theorem closes_settle
    {members : List Member}
    (closes : members.Pairwise fun member next =>
      member.bucket = next.bucket → ClosesBelow member.body) :
    (settle members).Pairwise fun member _ => ClosesBelow member.body := by
  fun_induction settle members with
  | case1 =>
      exact .nil
  | case2 last =>
      exact List.pairwise_singleton _ _
  | case3 first next rest inductionHypothesis =>
      obtain ⟨ownCloses, othersClose⟩ := List.pairwise_cons.mp closes
      refine List.pairwise_cons.mpr ⟨fun _ _ => ?_, inductionHypothesis othersClose⟩
      split
      · rename_i within
        have own := ownCloses next List.mem_cons_self (by simpa using within)
        rw [setOff, Member.followedBy]
        split
        · exact closesBelow_concat_blank rfl rfl _
        · rwa [List.append_nil]
      · exact closesBelow_concat_blank rfl rfl _

/-- Sorting keeps the order of the members of one bucket. -/
theorem closes_sortedMembers
    {members : List Member}
    (placed : ∀ member ∈ members, member.bucket ∈ Bucket.ofMembers)
    (closes : members.Pairwise fun member _ => ClosesBelow member.body) :
    (sortedMembers members).Pairwise fun member next =>
      member.bucket = next.bucket → ClosesBelow member.body := by
  rw [← flatMap_membersOf_eq_sortedMembers placed, List.pairwise_flatMap]
  have ofBucket {bucket : Bucket} {member : Member} (isOwn : member ∈ membersOf members bucket) :
      member.bucket = bucket := by
    simpa using (List.mem_filter.mp isOwn).2
  constructor
  · intro bucket _
    have own : (membersOf members bucket).Pairwise fun member _ => ClosesBelow member.body :=
      closes.sublist List.filter_sublist
    apply own.imp
    intro member next closed _
    exact closed
  · have distinct : Bucket.ofMembers.Nodup := by
      decide
    refine distinct.imp fun apart member isOwn next isOther same => absurd ?_ apart
    rw [← ofBucket isOwn, ← ofBucket isOther, same]

theorem endsClear_top
    (prelude : List Line) :
    EndsClear (top prelude) := by
  unfold top
  split
  · exact endsClear_nil
  · exact endsClear_concat_blank rfl _

theorem mem_of_mem_top
    {prelude : List Line}
    {line : Line}
    (isAbove : line ∈ top prelude) :
    line ∈ prelude ∨ line = separator := by
  unfold top at isAbove
  split at isAbove
  · cases isAbove
  · rcases List.mem_append.mp isAbove with isKept | isAdded
    · exact .inl (mem_of_mem_withoutTrailingBlanks isKept)
    · exact .inr (List.mem_singleton.mp isAdded)

theorem leadsPlainly_settle
    {members : List Member}
    (plain : ∀ member ∈ members.tail, member.LeadsPlainly) :
    ∀ member ∈ (settle members).tail, member.LeadsPlainly := by
  intro member isSettled
  have leads : (settle members).tail.map (·.lead) = members.tail.map (·.lead) := by
    rw [List.map_tail, List.map_tail, map_settle fun _ _ => rfl]
  have isLead : member.lead ∈ (settle members).tail.map (·.lead) :=
    List.mem_map_of_mem isSettled
  obtain ⟨before, isMember, same⟩ := List.mem_map.mp (leads ▸ isLead)
  rw [Member.LeadsPlainly, ← same]
  exact plain before isMember

section

variable
  {lines : List Line}
  (someMember : (MemberSplit.ofLines lines).members ≠ [])
  (text : ∀ member ∈ (MemberSplit.ofLines lines).members, member.head.isBlank = false)
  (plain : ∀ member ∈ (sortedMembers (MemberSplit.ofLines lines).members).tail,
    member.LeadsPlainly)

include someMember text plain

/-- The settled members of a script are cut from the arranged lines. -/
theorem ofLines_arrange :
    MemberSplit.ofLines (arrange (MemberSplit.ofLines lines)) =
      ⟨top (MemberSplit.ofLines lines).prelude,
        settle (sortedMembers (MemberSplit.ofLines lines).members)⟩ := by
  have tight : MemberSplit.Tight false (MemberSplit.ofLines lines) :=
    MemberSplit.tight_cut (by simp) (by simp)
  have sortedCut : ∀ member ∈ sortedMembers (MemberSplit.ofLines lines).members, member.Cut :=
    fun member isMember => tight.cut member ((List.mergeSort_perm _ _).subset isMember)
  have settledTight : MemberSplit.Tight false
      ⟨top (MemberSplit.ofLines lines).prelude,
        settle (sortedMembers (MemberSplit.ofLines lines).members)⟩ := by
    refine ⟨fun _ isSettled => cut_of_mem_settle sortedCut isSettled, leadsPlainly_settle plain,
      closes_settle (closes_sortedMembers ?_ tight.closes)⟩
    exact fun member isMember => MemberSplit.bucket_mem_of_mem_ofLines isMember
  have noHead : ∀ line ∈ top (MemberSplit.ofLines lines).prelude, line.isHead = false := by
    intro line isAbove
    rcases mem_of_mem_top isAbove with inPrelude | rfl
    · exact (MemberSplit.cut_headed (by simp)).1 line inPrelude
    · rfl
  rw [arrange_eq someMember (fun member isMember => (tight.cut member isMember).toHeaded) text]
  exact settledTight.ofLines_eq (endsClear_top _) noHead

/-- Arranging arranged lines changes nothing. -/
theorem arrange_ofLines_arrange :
    arrange (MemberSplit.ofLines (arrange (MemberSplit.ofLines lines))) =
      arrange (MemberSplit.ofLines lines) := by
  have again := ofLines_arrange someMember text plain
  have headed {others : List Line} :
      ∀ member ∈ (MemberSplit.ofLines others).members, member.Headed :=
    fun _ => MemberSplit.headed_of_mem_ofLines
  have sameMembers := List.mergeSort_perm (MemberSplit.ofLines lines).members precedes
  have settledText : ∀ member ∈ settle (sortedMembers (MemberSplit.ofLines lines).members),
      member.head.isBlank = false := by
    intro member isSettled
    obtain ⟨before, isMember, kept, added, rfl | rfl, _, rfl⟩ := exists_of_mem_settle isSettled
    · exact text kept (sameMembers.subset isMember)
    · exact text before (sameMembers.subset isMember)
  have someSettled : settle (sortedMembers (MemberSplit.ofLines lines).members) ≠ [] := by
    intro none
    have noBucket := buckets_settle (sortedMembers (MemberSplit.ofLines lines).members)
    rw [none, List.map_nil, eq_comm, List.map_eq_nil_iff] at noBucket
    exact someMember (List.perm_nil.mp (noBucket ▸ sameMembers.symm))
  have settledWhole := @arrange_eq (MemberSplit.ofLines (arrange (MemberSplit.ofLines lines)))
    (by rw [again]; exact someSettled) headed (by rw [again]; exact settledText)
  rw [settledWhole, again, arrange_eq someMember headed text]
  simp only [top_top, sortedMembers_settle, settle_settle]

end

end Canonical

end ScriptUplift
