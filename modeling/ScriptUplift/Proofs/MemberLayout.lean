import Mathlib.Tactic.Common
import ScriptUplift.Proofs.SelfContained

namespace ScriptUplift

/-!
# What member order depends on

Of the categories of its lines, splitting a file takes only whether they are
trivia, and arranging the members only the buckets of the first lines.  Which
lines are trivia is read off their texts, wherever they stand; the buckets may
depend on the lines above.
-/

/-- A category without the kind of its code. -/
def Category.outline
    (category : Category) :
    Category :=
  if category.isTrivia then category else .other

/-- A category with the given slot. -/
def Bucket.category
    (bucket : Bucket) :
    Category :=
  (Category.all.find? (·.bucket == bucket)).getD .other

theorem Category.isTrivia_outline
    (category : Category) :
    category.outline.isTrivia = category.isTrivia := by
  cases category <;> rfl

theorem Category.bucket_category
    (category : Category) :
    category.bucket.category.bucket = category.bucket := by
  cases category <;> rfl

theorem Category.isTrivia_category
    (category : Category) :
    category.bucket.category.isTrivia = category.isTrivia := by
  cases category <;> rfl

namespace Line

/-- A line without the kind of its code. -/
def outline
    (line : Line) :
    Line :=
  { line with category := line.category.outline }

/-- A line without the kind of its code, but for the bucket of the first line of a member. -/
def layout
    (line : Line) :
    Line :=
  { line with
    category := if line.isHead then line.category.bucket.category else line.category.outline }

variable (line : Line)

theorem isTrivia_layout :
    line.layout.category.isTrivia = line.category.isTrivia := by
  unfold layout
  dsimp only
  split
  · exact line.category.isTrivia_category
  · exact line.category.isTrivia_outline

@[simp] theorem isHead_outline :
    line.outline.isHead = line.isHead := by
  simp [isHead, outline, Category.isTrivia_outline]

@[simp] theorem isHead_layout :
    line.layout.isHead = line.isHead := by
  rw [isHead, isTrivia_layout]
  rfl

@[simp] theorem isNested_layout :
    line.layout.isNested = line.isNested := by
  rw [isNested, isTrivia_layout]
  rfl

@[simp] theorem isIndentedTrivia_layout :
    line.layout.isIndentedTrivia = line.isIndentedTrivia := by
  rw [isIndentedTrivia, isTrivia_layout]
  rfl

@[simp] theorem isBlank_layout :
    line.layout.isBlank = line.isBlank :=
  rfl

variable {line}

theorem bucket_layout
    (isHead : line.isHead = true) :
    line.layout.category.bucket = line.category.bucket := by
  rw [layout, if_pos isHead, Category.bucket_category]

end Line

/-- Lines with the same outlines are laid out alike when their members have the same buckets. -/
theorem map_layout_eq
    {first second : List Line}
    (sameOutlines : first.map Line.outline = second.map Line.outline)
    (sameRanks : (MemberSplit.ofLines first).ranks = (MemberSplit.ofLines second).ranks) :
    first.map Line.layout = second.map Line.layout := by
  rw [MemberSplit.ranks_ofLines, MemberSplit.ranks_ofLines] at sameRanks
  induction first generalizing second with
  | nil =>
      rw [List.map_nil, eq_comm, List.map_eq_nil_iff] at sameOutlines
      rw [sameOutlines]
  | cons line rest inductionHypothesis =>
      cases second with
      | nil =>
          cases sameOutlines
      | cons other others =>
          obtain ⟨sameLine, sameRest⟩ := List.cons.inj sameOutlines
          have sameHead : line.isHead = other.isHead := by
            rw [← line.isHead_outline, ← other.isHead_outline, sameLine]
          have layout_eq (own : Line) : own.layout =
              { own.outline with
                category :=
                  if own.isHead then own.category.bucket.category else own.outline.category } :=
            rfl
          rw [List.map_cons, List.map_cons, layout_eq line, layout_eq other, sameLine, sameHead]
          by_cases isHead : other.isHead = true
          · rw [List.filter_cons_of_pos (sameHead.trans isHead), List.filter_cons_of_pos isHead,
              List.map_cons, List.map_cons, List.cons.injEq] at sameRanks
            rw [Bucket.eq_of_rank_eq sameRanks.1, inductionHypothesis sameRest sameRanks.2]
          · rw [List.filter_cons_of_neg (sameHead ▸ isHead), List.filter_cons_of_neg isHead]
              at sameRanks
            rw [if_neg isHead, if_neg isHead, inductionHypothesis sameRest sameRanks]

/-! ## Splitting and arranging -/

/-- A member with its lines laid out. -/
def Member.layout
    (member : Member) :
    Member :=
  ⟨member.lead.map Line.layout, member.head.layout, member.body.map Line.layout⟩

@[simp] theorem Member.lines_layout
    (member : Member) :
    member.layout.lines = member.lines.map Line.layout := by
  simp [lines, layout]

namespace MemberSplit

/-- A split with its lines laid out. -/
def layout
    (split : MemberSplit) :
    MemberSplit :=
  ⟨split.prelude.map Line.layout, split.members.map Member.layout⟩

theorem cutLead_layout
    (pending : List Line) :
    cutLead (pending.map Line.layout) =
      ((cutLead pending).1.map Line.layout, (cutLead pending).2.map Line.layout) := by
  simp [cutLead, ← List.map_reverse, List.takeWhile_map, List.dropWhile_map, Function.comp_def]

theorem cut_layout
    (inMember : Bool)
    (pending lines : List Line) :
    cut inMember (pending.map Line.layout) (lines.map Line.layout) =
      (cut inMember pending lines).layout := by
  fun_induction cut inMember pending lines with
  | case1 =>
      rfl
  | case2 inMember pending line rest isHead above lead leadCut inductionHypothesis =>
      have sameCut := cutLead_layout pending
      rw [leadCut] at sameCut
      rw [List.map_cons, cut, if_pos (by simpa using isHead), sameCut]
      rw [List.map_nil] at inductionHypothesis
      simp [inductionHypothesis, push, start, layout, Member.layout]
  | case3 inMember pending line rest notHead nested inductionHypothesis =>
      rw [List.map_cons, cut, if_neg (by simpa using notHead), if_pos (by simpa using nested)]
      rw [List.map_nil] at inductionHypothesis
      simp [inductionHypothesis, push, layout]
  | case4 inMember pending line rest notHead notNested inductionHypothesis =>
      rw [List.map_cons, cut, if_neg (by simpa using notHead), if_neg (by simpa using notNested)]
      simpa using inductionHypothesis

/-- Lines that are laid out are split alike. -/
theorem ofLines_layout
    (lines : List Line) :
    ofLines (lines.map Line.layout) = (ofLines lines).layout :=
  cut_layout false [] lines

end MemberSplit

namespace Canonical

theorem withoutTrailingBlanks_layout
    (lines : List Line) :
    withoutTrailingBlanks (lines.map Line.layout) =
      (withoutTrailingBlanks lines).map Line.layout := by
  simp [withoutTrailingBlanks, ← List.map_reverse, List.dropWhile_map, Function.comp_def]

theorem layout_separator :
    separator.layout = separator :=
  rfl

theorem bucketLines_layout
    (members : List Member) :
    bucketLines (members.map Member.layout) = (bucketLines members).map Line.layout := by
  fun_induction bucketLines members with
  | case1 =>
      rfl
  | case2 last =>
      simp [bucketLines, withoutTrailingBlanks_layout]
  | case3 member rest several inductionHypothesis =>
      have sameEnd : endsBlank (member.lines.map Line.layout) = endsBlank member.lines := by
        rw [endsBlank, List.getLast?_map, Option.any_map]
        rfl
      have sameOpens : member.layout.head.opens = member.head.opens :=
        rfl
      have severalToo : rest.map Member.layout = [] → False := by
        simpa using several
      rw [List.map_cons, bucketLines.eq_3 _ _ severalToo, inductionHypothesis,
        Member.lines_layout, sameEnd, sameOpens]
      split <;> simp [layout_separator]

theorem membersOf_layout
    {members : List Member}
    (headed : ∀ member ∈ members, member.head.isHead = true)
    (bucket : Bucket) :
    membersOf (members.map Member.layout) bucket =
      (membersOf members bucket).map Member.layout := by
  rw [membersOf, List.filter_map, membersOf]
  congr 1
  apply List.filter_congr
  intro member isMember
  have sameBucket : member.layout.bucket = member.bucket :=
    Line.bucket_layout (headed member isMember)
  rw [Function.comp_apply, sameBucket]

/-- Members that are laid out are arranged alike. -/
theorem arrange_layout
    {split : MemberSplit}
    (headed : ∀ member ∈ split.members, member.head.isHead = true) :
    arrange split.layout = (arrange split).map Line.layout := by
  have added (above : List Line) (bucket : Bucket) :
      addBucket split.layout.members (above.map Line.layout) bucket =
        (addBucket split.members above bucket).map Line.layout := by
    unfold addBucket
    dsimp only
    rw [MemberSplit.layout, membersOf_layout headed, List.isEmpty_map, List.isEmpty_map,
      bucketLines_layout]
    split
    · rfl
    · split
      · rfl
      · simp [layout_separator]
  have addedAll (buckets : List Bucket) (above : List Line) :
      buckets.foldl (addBucket split.layout.members) (above.map Line.layout) =
        (buckets.foldl (addBucket split.members) above).map Line.layout := by
    induction buckets generalizing above with
    | nil =>
        rfl
    | cons bucket rest inductionHypothesis =>
        rw [List.foldl_cons, added, inductionHypothesis, List.foldl_cons]
  have sameTop := withoutTrailingBlanks_layout split.prelude
  rw [arrange, MemberSplit.layout, sameTop]
  exact addedAll Bucket.ofMembers _

/-- Lines that are laid out alike are arranged into the same texts. -/
theorem texts_arrange_congr
    {first second : List Line}
    (sameLayout : first.map Line.layout = second.map Line.layout) :
    (arrange (MemberSplit.ofLines first)).map (·.text) =
      (arrange (MemberSplit.ofLines second)).map (·.text) := by
  have texts (lines : List Line) :
      (arrange (MemberSplit.ofLines lines)).map (·.text) =
        (arrange (MemberSplit.ofLines (lines.map Line.layout))).map (·.text) := by
    rw [MemberSplit.ofLines_layout,
      arrange_layout fun _ isMember => (MemberSplit.headed_of_mem_ofLines isMember).head,
      List.map_map]
    rfl
  rw [texts first, sameLayout, ← texts second]

end Canonical

end ScriptUplift
