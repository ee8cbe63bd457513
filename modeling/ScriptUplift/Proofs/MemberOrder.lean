import Mathlib.Data.List.Perm.Basic
import Mathlib.Data.List.TakeWhile
import Mathlib.Tactic.Common
import ScriptUplift.Member.Canonical

namespace ScriptUplift

/-!
# Member order moves lines and loses none

Cutting a script into its prelude and members loses no line and keeps their
order.  Arranging the members puts the same lines together again, up to two
differences: blank lines at the end of a stretch go, and separators come.
-/

namespace MemberSplit

/-- The lead of a member is the end of the lines above it. -/
theorem cutLead_append
    (pending : List Line) :
    (cutLead pending).1 ++ (cutLead pending).2 = pending := by
  have blockSuffix :
      (pending.reverse.takeWhile (!·.isBlank)).reverse <:+ pending := by
    have reversed :=
      (List.takeWhile_prefix (p := fun line : Line => !line.isBlank) (l := pending.reverse)).reverse
    rwa [List.reverse_reverse] at reversed
  have leadSuffix : (cutLead pending).2 <:+ pending :=
    (List.dropWhile_suffix _).trans blockSuffix
  obtain ⟨above, shape⟩ := leadSuffix
  have aboveLength : pending.length - (cutLead pending).2.length = above.length := by
    have total := congrArg List.length shape
    rw [List.length_append] at total
    omega
  have aboveTaken : (cutLead pending).1 = above := by
    calc
      (cutLead pending).1 = pending.take (pending.length - (cutLead pending).2.length) := rfl
      _ = (above ++ (cutLead pending).2).take above.length := by
          rw [aboveLength, shape]
      _ = above := List.take_left
  rw [aboveTaken, shape]

/-- Prelude and members, put one after the other, are the lines that were cut. -/
theorem cut_lines
    (inMember : Bool)
    (pending lines : List Line) :
    (cut inMember pending lines).prelude ++
        (cut inMember pending lines).members.flatMap Member.lines =
      pending ++ lines := by
  fun_induction cut inMember pending lines with
  | case1 =>
      simp
  | case2 inMember pending line rest isHead above lead leadCut inductionHypothesis =>
      have cutParts := cutLead_append pending
      rw [leadCut] at cutParts
      simp only [push, start, List.flatMap_cons, Member.lines, List.append_nil]
      rw [← cutParts]
      simpa using inductionHypothesis
  | case3 inMember pending line rest notHead nested inductionHypothesis =>
      simp only [push, List.append_assoc, inductionHypothesis]
      simp
  | case4 inMember pending line rest notHead notNested inductionHypothesis =>
      rw [inductionHypothesis]
      simp

theorem ofLines_lines
    (lines : List Line) :
    (ofLines lines).prelude ++ (ofLines lines).members.flatMap Member.lines = lines :=
  cut_lines false [] lines

/-- Every member begins with a line that can begin one. -/
theorem isHead_of_mem_cut
    {inMember : Bool}
    {pending lines : List Line}
    {member : Member}
    (isMember : member ∈ (cut inMember pending lines).members) :
    member.head.isHead = true := by
  fun_induction cut inMember pending lines with
  | case1 =>
      simp at isMember
  | case2 inMember pending line rest isHead above lead leadCut inductionHypothesis =>
      rcases List.mem_cons.mp isMember with rfl | inRest
      · exact isHead
      · exact inductionHypothesis inRest
  | case3 inMember pending line rest notHead nested inductionHypothesis =>
      exact inductionHypothesis isMember
  | case4 inMember pending line rest notHead notNested inductionHypothesis =>
      exact inductionHypothesis isMember

end MemberSplit

/-- A category with code has a slot among the members. -/
theorem Category.bucket_mem_ofMembers
    {category : Category}
    (code : category.isTrivia = false) :
    category.bucket ∈ Bucket.ofMembers := by
  revert code
  cases category <;> decide

theorem Line.bucket_mem_ofMembers
    {line : Line}
    (isHead : line.isHead = true) :
    line.category.bucket ∈ Bucket.ofMembers := by
  simp only [Line.isHead, Bool.and_eq_true, Bool.not_eq_true'] at isHead
  exact Category.bucket_mem_ofMembers isHead.2

namespace Canonical

/-- What is cut off at the end is blank. -/
theorem exists_blanks_withoutTrailingBlanks
    (lines : List Line) :
    ∃ blanks,
      (∀ line ∈ blanks, line.isBlank = true) ∧ lines = withoutTrailingBlanks lines ++ blanks := by
  refine ⟨(lines.reverse.takeWhile (·.isBlank)).reverse, ?_, ?_⟩
  · intro line isBlank
    exact List.mem_takeWhile_imp (List.mem_reverse.mp isBlank)
  · rw [withoutTrailingBlanks, ← List.reverse_append, List.takeWhile_append_dropWhile,
      List.reverse_reverse]

/--
Lines regrouped into other lines: nothing but blank lines is lost, and nothing
but separators is new.
-/
def Regrouped
    (before after : List Line) :
    Prop :=
  ∃ trimmed added : List Line,
    (∀ line ∈ trimmed, line.isBlank = true) ∧
      (∀ line ∈ added, line = separator) ∧
      (after ++ trimmed).Perm (before ++ added)

namespace Regrouped

theorem refl
    (lines : List Line) :
    Regrouped lines lines :=
  ⟨[], [], by simp, by simp, .refl _⟩

/-- Stretches are regrouped one after the other. -/
theorem append
    {before after before' after' : List Line}
    (first : Regrouped before after)
    (second : Regrouped before' after') :
    Regrouped (before ++ before') (after ++ after') := by
  obtain ⟨trimmed, added, blanks, separators, same⟩ := first
  obtain ⟨trimmed', added', blanks', separators', same'⟩ := second
  refine ⟨trimmed ++ trimmed', added ++ added', ?_, ?_, ?_⟩
  · intro line member
    rcases List.mem_append.mp member with inFirst | inSecond
    · exact blanks line inFirst
    · exact blanks' line inSecond
  · intro line member
    rcases List.mem_append.mp member with inFirst | inSecond
    · exact separators line inFirst
    · exact separators' line inSecond
  · calc
      (after ++ after' ++ (trimmed ++ trimmed')).Perm
          ((after ++ trimmed) ++ (after' ++ trimmed')) := by
        simpa using (List.perm_append_comm_assoc after' trimmed trimmed').append_left after
      List.Perm _ ((before ++ added) ++ (before' ++ added')) := same.append same'
      List.Perm _ (before ++ before' ++ (added ++ added')) := by
        simpa using (List.perm_append_comm_assoc added before' added').append_left before

/-- The order of the lines that are regrouped does not matter. -/
theorem of_perm
    {before before' after : List Line}
    (same : before.Perm before')
    (regrouped : Regrouped before after) :
    Regrouped before' after := by
  obtain ⟨trimmed, added, blanks, separators, balanced⟩ := regrouped
  exact ⟨trimmed, added, blanks, separators, balanced.trans (same.append_right added)⟩

/-- A separator may come anywhere. -/
theorem singleton_separator :
    Regrouped [] [separator] :=
  ⟨[], [separator], by simp, by simp, .refl _⟩

theorem withoutTrailingBlanks
    (lines : List Line) :
    Regrouped lines (withoutTrailingBlanks lines) := by
  obtain ⟨blanks, blank, parts⟩ := exists_blanks_withoutTrailingBlanks lines
  refine ⟨blanks, [], blank, by simp, ?_⟩
  rw [← parts, List.append_nil]

/-- Every line is an old one or a separator. -/
theorem mem_or_separator
    {before after : List Line}
    (regrouped : Regrouped before after)
    {line : Line}
    (member : line ∈ after) :
    line ∈ before ∨ line = separator := by
  obtain ⟨trimmed, added, _, separators, balanced⟩ := regrouped
  have among : line ∈ before ++ added :=
    balanced.subset (List.mem_append_left _ member)
  rcases List.mem_append.mp among with old | new
  · exact .inl old
  · exact .inr (separators line new)

/-- A line that is not blank stays. -/
theorem mem_of_not_blank
    {before after : List Line}
    (regrouped : Regrouped before after)
    {line : Line}
    (member : line ∈ before)
    (notBlank : line.isBlank = false) :
    line ∈ after := by
  obtain ⟨trimmed, added, blanks, _, balanced⟩ := regrouped
  have among : line ∈ after ++ trimmed :=
    balanced.symm.subset (List.mem_append_left _ member)
  rcases List.mem_append.mp among with kept | gone
  · exact kept
  · simp [blanks line gone] at notBlank

/-- Regrouping adds nothing that separators do not have. -/
theorem countP_le
    {before after : List Line}
    (regrouped : Regrouped before after)
    (property : Line → Bool)
    (notSeparator : property separator = false) :
    after.countP property ≤ before.countP property := by
  obtain ⟨trimmed, added, _, separators, balanced⟩ := regrouped
  have noneAdded : added.countP property = 0 := by
    rw [List.countP_eq_zero]
    intro line isAdded
    rw [separators line isAdded, notSeparator]
    exact Bool.false_ne_true
  have counted := balanced.countP_eq property
  rw [List.countP_append, List.countP_append, noneAdded] at counted
  omega

/-- Regrouping loses nothing that blank lines do not have. -/
theorem le_countP
    {before after : List Line}
    (regrouped : Regrouped before after)
    (property : Line → Bool)
    (notBlank : ∀ line : Line, line.isBlank = true → property line = false) :
    before.countP property ≤ after.countP property := by
  obtain ⟨trimmed, added, blanks, _, balanced⟩ := regrouped
  have noneTrimmed : trimmed.countP property = 0 := by
    rw [List.countP_eq_zero]
    intro line isTrimmed
    rw [notBlank line (blanks line isTrimmed)]
    exact Bool.false_ne_true
  have counted := balanced.countP_eq property
  rw [List.countP_append, List.countP_append, noneTrimmed] at counted
  omega

end Regrouped

/-- The lines of a bucket are those of its members. -/
theorem regrouped_bucketLines
    (members : List Member) :
    Regrouped (members.flatMap Member.lines) (bucketLines members) := by
  fun_induction bucketLines members with
  | case1 =>
      exact .refl []
  | case2 last =>
      simpa using Regrouped.withoutTrailingBlanks last.lines
  | case3 member rest _ inductionHypothesis =>
      have setOff :
          Regrouped []
            (if member.head.opens && !endsBlank member.lines then [separator] else []) := by
        split
        · exact .singleton_separator
        · exact .refl []
      simpa using ((Regrouped.refl member.lines).append setOff).append inductionHypothesis

/-- Adding a bucket adds the lines of its members. -/
theorem Regrouped.addBucket
    {before above : List Line}
    (regrouped : Regrouped before above)
    (members : List Member)
    (bucket : Bucket) :
    Regrouped (before ++ (membersOf members bucket).flatMap Member.lines)
      (addBucket members above bucket) := by
  have own := regrouped_bucketLines (membersOf members bucket)
  unfold Canonical.addBucket
  dsimp only
  split
  · rename_i empty
    rw [List.isEmpty_iff.mp empty]
    simpa using regrouped
  · split
    · rename_i top
      rw [List.isEmpty_iff.mp top] at regrouped
      simpa using regrouped.append own
    · simpa using regrouped.append (Regrouped.singleton_separator.append own)

/-- Adding buckets one after the other adds the lines of all their members. -/
theorem Regrouped.addBuckets
    {before above : List Line}
    (regrouped : Regrouped before above)
    (members : List Member)
    (buckets : List Bucket) :
    Regrouped
      (before ++ (buckets.flatMap (membersOf members)).flatMap Member.lines)
      (buckets.foldl (Canonical.addBucket members) above) := by
  induction buckets generalizing before above with
  | nil =>
      simpa using regrouped
  | cons bucket rest inductionHypothesis =>
      simpa using inductionHypothesis (regrouped.addBucket members bucket)

/-- Collecting members bucket by bucket picks those with one of the buckets. -/
theorem flatMap_membersOf_perm
    (members : List Member)
    {buckets : List Bucket}
    (distinct : buckets.Nodup) :
    (buckets.flatMap (membersOf members)).Perm
      (members.filter (decide <| ·.bucket ∈ buckets)) := by
  induction buckets with
  | nil =>
      simp
  | cons bucket rest inductionHypothesis =>
      obtain ⟨absent, restDistinct⟩ := List.nodup_cons.mp distinct
      let picked := members.filter (decide <| ·.bucket ∈ bucket :: rest)
      have own : picked.filter (·.bucket == bucket) = membersOf members bucket := by
        simp only [picked, membersOf, List.filter_filter]
        apply List.filter_congr
        intro member _
        by_cases same : member.bucket = bucket <;> simp [same]
      have others :
          picked.filter (!·.bucket == bucket) =
            members.filter (decide <| ·.bucket ∈ rest) := by
        simp only [picked, List.filter_filter]
        apply List.filter_congr
        intro member _
        by_cases same : member.bucket = bucket <;> simp [same, absent]
      have parted := List.filter_append_perm (·.bucket == bucket) picked
      rw [own, others] at parted
      rw [List.flatMap_cons]
      exact ((inductionHypothesis restDistinct).append_left _).trans parted

/-- The buckets that can hold members collect every member of a script. -/
theorem ofMembers_collects
    (lines : List Line) :
    (Bucket.ofMembers.flatMap (membersOf (MemberSplit.ofLines lines).members)).Perm
      (MemberSplit.ofLines lines).members := by
  have collected :=
    flatMap_membersOf_perm (MemberSplit.ofLines lines).members
      (by decide : Bucket.ofMembers.Nodup)
  rwa [List.filter_eq_self.mpr] at collected
  intro member isMember
  exact decide_eq_true (Line.bucket_mem_ofMembers (MemberSplit.isHead_of_mem_cut isMember))

/-- The canonical order regroups the lines of a script. -/
theorem regrouped_arrange
    (lines : List Line) :
    Regrouped lines (arrange (MemberSplit.ofLines lines)) := by
  have arranged :=
    (Regrouped.withoutTrailingBlanks (MemberSplit.ofLines lines).prelude).addBuckets
      (MemberSplit.ofLines lines).members Bucket.ofMembers
  refine Regrouped.of_perm ?_ arranged
  have collected := (ofMembers_collects lines).flatMap_right Member.lines
  have whole := MemberSplit.ofLines_lines lines
  calc
    ((MemberSplit.ofLines lines).prelude ++
        (Bucket.ofMembers.flatMap
          (membersOf (MemberSplit.ofLines lines).members)).flatMap Member.lines).Perm
        ((MemberSplit.ofLines lines).prelude ++
          (MemberSplit.ofLines lines).members.flatMap Member.lines) :=
      collected.append_left _
    List.Perm _ lines := by
      rw [whole]

end Canonical

end ScriptUplift
