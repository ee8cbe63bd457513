import Mathlib.Data.List.Infix
import Mathlib.Tactic.Common
import ScriptUplift.Proofs.SelfContained

namespace ScriptUplift

/-!
# Annotations move with their declarations

An annotation is bound to the next statement below it.  Cutting keeps the two in
one part when only comments stand between them, and also when every part of the
split rests, since a part that ends in an annotation does not.  Arranging the
parts keeps every stretch of a part that ends with text.
-/

namespace MemberSplit

/-- The stretches that member order moves as a whole. -/
def parts
    (split : MemberSplit) :
    List (List Line) :=
  split.prelude :: split.members.map Member.lines

theorem flatten_parts_ofLines
    (lines : List Line) :
    (ofLines lines).parts.flatten = lines := by
  rw [parts, List.flatten_cons, ← List.flatMap_def]
  exact ofLines_lines lines

/-- A stretch lies in one part of a split. -/
def Holds
    (split : MemberSplit)
    (run : List Line) :
    Prop :=
  ∃ part ∈ split.parts, run <:+: part

variable {split : MemberSplit} {run : List Line}

theorem holds_push_of_above
    {above : List Line}
    (within : run <:+: above) :
    (push above split).Holds run :=
  ⟨_, List.mem_cons_self, within.trans (List.prefix_append _ _).isInfix⟩

theorem Holds.push
    (holds : split.Holds run)
    (above : List Line) :
    (push above split).Holds run := by
  obtain ⟨part, isPart, within⟩ := holds
  rcases List.mem_cons.mp isPart with rfl | ofMember
  · exact ⟨_, List.mem_cons_self, within.trans (List.suffix_append _ _).isInfix⟩
  · exact ⟨part, List.mem_cons_of_mem _ ofMember, within⟩

theorem holds_start_of_lead
    {lead : List Line}
    {head : Line}
    (within : run <:+: lead ++ [head]) :
    (start lead head split).Holds run := by
  refine ⟨lead ++ head :: split.prelude, by simp [parts, start, Member.lines], ?_⟩
  rw [List.append_cons]
  exact within.trans (List.prefix_append _ _).isInfix

theorem Holds.start
    (holds : split.Holds run)
    (lead : List Line)
    (head : Line) :
    (start lead head split).Holds run := by
  obtain ⟨part, isPart, within⟩ := holds
  rcases List.mem_cons.mp isPart with rfl | ofMember
  · refine ⟨lead ++ head :: split.prelude, by simp [parts, MemberSplit.start, Member.lines], ?_⟩
    rw [List.append_cons]
    exact within.trans (List.suffix_append _ _).isInfix
  · exact ⟨part, by simp [parts, MemberSplit.start, ofMember], within⟩

end MemberSplit

/--
A stretch that cutting cannot part: no line of it is blank, it does not begin
with an indented comment, and only its last line may begin a member or be nested
in one.
-/
structure Tied
    (run : List Line) :
    Prop where
  text : ∀ line ∈ run, line.isBlank = false
  begins : ∀ line ∈ run.head?, line.isIndentedTrivia = false
  inside : ∀ line ∈ run.dropLast, line.isHead = false ∧ line.isNested = false

namespace MemberSplit

/-- The lead is what follows the last blank line and the indented comments below it. -/
theorem cutLead_parts
    (pending : List Line) :
    ∃ above comments,
      (above = [] ∨ ∃ earlier blank, above = earlier ++ [blank] ∧ blank.isBlank = true) ∧
        (∀ line ∈ comments, line.isIndentedTrivia = true) ∧
        (cutLead pending).1 = above ++ comments := by
  let block := (pending.reverse.takeWhile (!·.isBlank)).reverse
  let above := (pending.reverse.dropWhile (!·.isBlank)).reverse
  let comments := block.takeWhile (·.isIndentedTrivia)
  have whole : above ++ (comments ++ (cutLead pending).2) = pending := by
    have blockParts : comments ++ (cutLead pending).2 = block :=
      List.takeWhile_append_dropWhile
    rw [blockParts, ← List.reverse_append, List.takeWhile_append_dropWhile,
      List.reverse_reverse]
  refine ⟨above, comments, ?_, fun _ isComment => List.mem_takeWhile_imp isComment, ?_⟩
  · cases shape : pending.reverse.dropWhile (!·.isBlank) with
    | nil =>
        exact .inl (by simp [above, shape])
    | cons blank earlier =>
        refine .inr ⟨earlier.reverse, blank, by simp [above, shape], ?_⟩
        have kept : pending.reverse.dropWhile (!·.isBlank) ≠ [] := by
          simp [shape]
        have stops := List.head_dropWhile_not (fun line : Line => !line.isBlank) kept
        simpa [shape] using stops
  · have cutParts := cutLead_append pending
    rw [← List.append_assoc] at whole
    exact List.append_cancel_right (cutParts.trans whole.symm)

end MemberSplit

namespace Tied

/-- What stands above the lead of a member ends before a tied stretch, or holds all of it. -/
theorem cutLead
    {run : List Line}
    (tied : Tied run)
    {pending next : List Line}
    (occurs : run <:+: pending ++ next) :
    run <:+: (MemberSplit.cutLead pending).1 ∨
      run <:+: (MemberSplit.cutLead pending).2 ++ next := by
  obtain ⟨above, comments, ends, indented, shape⟩ := MemberSplit.cutLead_parts pending
  have cutParts := MemberSplit.cutLead_append pending
  rw [← cutParts, shape, List.append_assoc, List.append_assoc] at occurs
  rw [shape]
  generalize (MemberSplit.cutLead pending).2 ++ next = below at occurs ⊢
  have inComments (within : run <:+: comments ++ below) :
      run <:+: above ++ comments ∨ run <:+: below := by
    rcases List.infix_append_iff.mp within with inside | after | ⟨early, late, rfl, suffix, prior⟩
    · exact .inl (inside.trans (List.suffix_append above comments).isInfix)
    · exact .inr after
    · cases early with
      | nil =>
          exact .inr prior.isInfix
      | cons first rest =>
          have isComment : first ∈ comments := suffix.subset List.mem_cons_self
          have notIndented := tied.begins first rfl
          rw [indented first isComment] at notIndented
          cases notIndented
  rcases List.infix_append_iff.mp occurs with inside | after | ⟨early, late, rfl, suffix, prior⟩
  · exact .inl (inside.trans (List.prefix_append above comments).isInfix)
  · exact inComments after
  · cases early with
    | nil =>
        exact inComments prior.isInfix
    | cons first rest =>
        -- A stretch that begins above the blank line would hold it.
        exfalso
        rcases ends with rfl | ⟨earlier, blank, rfl, isBlank⟩
        · exact absurd (List.suffix_nil.mp suffix) (List.cons_ne_nil _ _)
        · rcases List.suffix_concat_iff.mp suffix with empty | ⟨most, reaches, _⟩
          · exact absurd empty (List.cons_ne_nil _ _)
          · have text := tied.text blank (by simp [reaches])
            rw [isBlank] at text
            cases text

/-- A tied stretch does not reach across a line that begins a member or is nested in one. -/
theorem split_at
    {run : List Line}
    (tied : Tied run)
    {line : Line}
    (stops : line.isHead = true ∨ line.isNested = true)
    {above below : List Line}
    (occurs : run <:+: (above ++ [line]) ++ below) :
    run <:+: above ++ [line] ∨ run <:+: below := by
  rcases List.infix_append_iff.mp occurs with inside | after | ⟨early, late, rfl, suffix, prior⟩
  · exact .inl inside
  · exact .inr after
  · rcases List.suffix_concat_iff.mp suffix with rfl | ⟨most, rfl, _⟩
    · exact .inr prior.isInfix
    · cases late with
      | nil =>
          exact .inl (by simpa using suffix.isInfix)
      | cons next rest =>
          have notLast : line ∈ (most ++ [line] ++ next :: rest).dropLast := by
            rw [List.dropLast_append_of_ne_nil (List.cons_ne_nil _ _)]
            simp
          obtain ⟨notHead, notNested⟩ := tied.inside line notLast
          simp [notHead, notNested] at stops

/-- Cutting keeps a tied stretch in one part. -/
theorem cut
    {run : List Line}
    (tied : Tied run)
    {inMember : Bool}
    {pending lines : List Line}
    (occurs : run <:+: pending ++ lines) :
    (MemberSplit.cut inMember pending lines).Holds run := by
  fun_induction MemberSplit.cut inMember pending lines with
  | case1 inMember pending =>
      exact ⟨pending, List.mem_cons_self, by simpa using occurs⟩
  | case2 inMember pending line rest isHead above lead leadCut inductionHypothesis =>
      have placed := tied.cutLead occurs
      rw [leadCut, List.append_cons] at placed
      rcases placed with isAbove | below
      · exact MemberSplit.holds_push_of_above isAbove
      · rcases tied.split_at (.inl isHead) below with inLead | inRest
        · exact (MemberSplit.holds_start_of_lead inLead).push above
        · exact ((inductionHypothesis (by simpa using inRest)).start lead line).push above
  | case3 inMember pending line rest notHead nested inductionHypothesis =>
      have isNested : line.isNested = true := by
        simp only [Bool.and_eq_true] at nested
        exact nested.2
      rw [List.append_cons] at occurs
      rcases tied.split_at (.inr isNested) occurs with isPending | inRest
      · exact MemberSplit.holds_push_of_above isPending
      · exact (inductionHypothesis (by simpa using inRest)).push _
  | case4 inMember pending line rest notHead notNested inductionHypothesis =>
      exact inductionHypothesis (by simpa using occurs)

end Tied

/-- A stretch that no part ends inside of lies in one part. -/
theorem exists_part_of_unparted
    {run : List Line}
    (notEmpty : run ≠ [])
    {parts : List (List Line)}
    (unparted :
      ∀ part ∈ parts, ∀ early late, run = early ++ late → early <:+ part →
        early = [] ∨ late = [])
    (occurs : run <:+: parts.flatten) :
    ∃ part ∈ parts, run <:+: part := by
  induction parts with
  | nil =>
      exact absurd (List.infix_nil.mp occurs) notEmpty
  | cons part rest inductionHypothesis =>
      obtain ⟨ownUnparted, restUnparted⟩ := List.forall_mem_cons.mp unparted
      have inRest (within : run <:+: rest.flatten) :
          ∃ holder ∈ part :: rest, run <:+: holder := by
        obtain ⟨found, isPart, holds⟩ := inductionHypothesis restUnparted within
        exact ⟨found, List.mem_cons_of_mem _ isPart, holds⟩
      rw [List.flatten_cons] at occurs
      rcases List.infix_append_iff.mp occurs with inside | after | ⟨early, late, shape, suffix, prior⟩
      · exact ⟨part, List.mem_cons_self, inside⟩
      · exact inRest after
      · rcases ownUnparted early late shape suffix with rfl | rfl
        · exact inRest (by simpa [shape] using prior.isInfix)
        · exact ⟨part, List.mem_cons_self, by simpa [shape] using suffix.isInfix⟩

namespace Canonical

/-- Trimming keeps a stretch that ends with text. -/
theorem infix_withoutTrailingBlanks
    {run lines : List Line}
    (ends : EndsInText run)
    (occurs : run <:+: lines) :
    run <:+: withoutTrailingBlanks lines := by
  obtain ⟨blanks, blank, parts⟩ := exists_blanks_withoutTrailingBlanks lines
  obtain ⟨above, last, rfl, text⟩ := ends
  have notTrimmed : last ∉ blanks := by
    intro isBlank
    rw [blank last isBlank] at text
    cases text
  rw [parts] at occurs
  rcases List.infix_append_iff.mp occurs with inside | after | ⟨early, late, shape, suffix, prior⟩
  · exact inside
  · exact absurd (after.subset (by simp)) notTrimmed
  · rcases List.eq_nil_or_concat' late with rfl | ⟨most, final, rfl⟩
    · rw [shape, List.append_nil]
      exact suffix.isInfix
    · rw [← List.append_assoc, List.append_singleton_inj] at shape
      exact absurd (prior.subset (by simp [shape.2])) notTrimmed

/-- The lines of a bucket keep a stretch of a member that ends with text. -/
theorem infix_bucketLines
    {run : List Line}
    (ends : EndsInText run)
    {members : List Member}
    {member : Member}
    (isMember : member ∈ members)
    (occurs : run <:+: member.lines) :
    run <:+: bucketLines members := by
  fun_induction bucketLines members with
  | case1 =>
      simp at isMember
  | case2 last =>
      rw [List.mem_singleton.mp isMember] at occurs
      exact infix_withoutTrailingBlanks ends occurs
  | case3 first rest _ inductionHypothesis =>
      rcases List.mem_cons.mp isMember with rfl | inRest
      · rw [List.append_assoc]
        exact occurs.trans (List.prefix_append _ _).isInfix
      · exact (inductionHypothesis inRest).trans (List.suffix_append _ _).isInfix

/-- Adding a bucket keeps what stands above. -/
theorem prefix_addBucket
    (members : List Member)
    (above : List Line)
    (bucket : Bucket) :
    above <+: addBucket members above bucket := by
  unfold addBucket
  dsimp only
  split
  · exact List.prefix_refl above
  · split
    · rename_i top
      rw [List.isEmpty_iff.mp top]
      exact List.nil_prefix
    · exact List.prefix_append _ _

theorem prefix_foldl_addBucket
    (members : List Member)
    (buckets : List Bucket)
    (above : List Line) :
    above <+: buckets.foldl (addBucket members) above := by
  induction buckets generalizing above with
  | nil =>
      exact List.prefix_refl above
  | cons bucket rest inductionHypothesis =>
      exact (prefix_addBucket members above bucket).trans (inductionHypothesis _)

/-- Adding the bucket of a member adds its stretches that end with text. -/
theorem infix_addBucket
    {run : List Line}
    (ends : EndsInText run)
    {members : List Member}
    {member : Member}
    (isMember : member ∈ members)
    (occurs : run <:+: member.lines)
    (above : List Line) :
    run <:+: addBucket members above member.bucket := by
  have isOwn : member ∈ membersOf members member.bucket :=
    List.mem_filter.mpr ⟨isMember, by simp⟩
  have someMember : (membersOf members member.bucket).isEmpty = false := by
    rw [List.isEmpty_eq_false_iff]
    exact List.ne_nil_of_mem isOwn
  have added := infix_bucketLines ends isOwn occurs
  unfold addBucket
  simp only [someMember, Bool.false_eq_true, if_false]
  split
  · exact added
  · rw [List.append_cons]
    exact added.trans (List.suffix_append _ _).isInfix

/-- The canonical order keeps every stretch of a part that ends with text. -/
theorem infix_arrange
    {run : List Line}
    (ends : EndsInText run)
    {lines : List Line}
    (holds : (MemberSplit.ofLines lines).Holds run) :
    run <:+: arrange (MemberSplit.ofLines lines) := by
  obtain ⟨part, isPart, occurs⟩ := holds
  unfold arrange
  rcases List.mem_cons.mp isPart with rfl | ofMember
  · exact (infix_withoutTrailingBlanks ends occurs).trans
      (prefix_foldl_addBucket _ _ _).isInfix
  · obtain ⟨member, isMember, rfl⟩ := List.mem_map.mp ofMember
    obtain ⟨earlier, later, order⟩ :=
      List.append_of_mem (MemberSplit.bucket_mem_of_mem_ofLines isMember)
    rw [order, List.foldl_append, List.foldl_cons]
    exact (infix_addBucket ends isMember occurs _).trans (prefix_foldl_addBucket _ _ _).isInfix

end Canonical

/-- An annotation and the declaration it is bound to: the next statement below it. -/
structure Bound
    (lines : List Line)
    (annotating : Line)
    (between : List Line)
    (declaration : Line) :
    Prop where
  occurs : annotating :: between ++ [declaration] <:+: lines
  annotates : annotating.isStatement = true
  annotationOnly : annotating.annotationOnly = true
  next : ∀ line ∈ between, line.isStatement = false
  declares : declaration.isStatement = true

instance
    (lines : List Line)
    (annotating : Line)
    (between : List Line)
    (declaration : Line) :
    Decidable (Bound lines annotating between declaration) :=
  decidable_of_iff
    (annotating :: between ++ [declaration] <:+: lines ∧
      annotating.isStatement = true ∧
      annotating.annotationOnly = true ∧
      (∀ line ∈ between, line.isStatement = false) ∧
      declaration.isStatement = true)
    ⟨fun facts => ⟨facts.1, facts.2.1, facts.2.2.1, facts.2.2.2.1, facts.2.2.2.2⟩,
      fun bound =>
        ⟨bound.occurs, bound.annotates, bound.annotationOnly, bound.next, bound.declares⟩⟩

namespace Bound

variable {lines between : List Line} {annotating declaration : Line}

/-- An annotation at class scope is tied to its declaration by the comments between them. -/
theorem tied
    {unit : IndentUnit}
    (bound : Bound (refreshLines unit lines) annotating between declaration)
    (atClassScope : annotating.depth = 0)
    (comments : ∀ line ∈ between, line.category = .comment) :
    Tied (annotating :: between ++ [declaration]) := by
  have inFile {line : Line} (within : line ∈ annotating :: between ++ [declaration]) :
      line ∈ refreshLines unit lines :=
    bound.occurs.subset within
  have starts {line : Line} (isBetween : line ∈ between) : line.continues = false := by
    have within : line ∈ annotating :: between ++ [declaration] := by
      simp [isBetween]
    rcases mem_classifyLines (inFile within) with ⟨_, other⟩ | ⟨_, starts, _⟩
    · rw [comments line isBetween] at other
      cases other
    · exact starts
  have annotates := bound.annotates
  simp only [Line.isStatement, Bool.and_eq_true, Bool.not_eq_true'] at annotates
  constructor
  · intro line within
    by_contra blank
    have category := category_of_isBlank (inFile within) (by simpa using blank)
    simp only [List.cons_append, List.mem_cons, List.mem_append, List.not_mem_nil,
      or_false] at within
    rcases within with rfl | isBetween | rfl
    · simp [category, Category.isTrivia] at annotates
    · rw [comments line isBetween] at category
      cases category
    · have declares := bound.declares
      simp [Line.isStatement, category, Category.isTrivia] at declares
  · intro line first
    have isAnnotation : annotating = line := by
      simpa using first
    simp [Line.isIndentedTrivia, ← isAnnotation, atClassScope]
  · intro line isInside
    rw [List.dropLast_concat] at isInside
    rcases List.mem_cons.mp isInside with rfl | isBetween
    · simp [Line.isHead, Line.isNested, annotates, bound.annotationOnly, atClassScope]
    · simp [Line.isHead, Line.isNested, starts isBetween, comments line isBetween,
        Category.isTrivia]

/-- A part that rests does not end between an annotation and its declaration. -/
theorem unparted
    (bound : Bound lines annotating between declaration)
    {part : List Line}
    (rests : Rests part)
    {early late : List Line}
    (shape : annotating :: between ++ [declaration] = early ++ late)
    (suffix : early <:+ part) :
    early = [] ∨ late = [] := by
  cases early with
  | nil =>
      exact .inl rfl
  | cons first inside =>
      rw [List.cons_append, List.cons_append, List.cons.injEq] at shape
      obtain ⟨rfl, shape⟩ := shape
      have prior : inside <+: between ++ [declaration] := ⟨late, shape.symm⟩
      rcases List.prefix_concat_iff.mp prior with whole | isBetween
      · rw [whole] at shape
        exact .inr (by simpa using shape)
      · -- The annotation would be the last statement of the part.
        exfalso
        obtain ⟨above, rfl⟩ := suffix
        have noStatement : inside.filter (·.isStatement) = [] := by
          rw [List.filter_eq_nil_iff]
          intro line isInside
          simp [bound.next line (isBetween.subset isInside)]
        have last : annotating ∈ lastStatement? (above ++ annotating :: inside) := by
          simp [lastStatement?, bound.annotates, noStatement]
        have expected := rests.noAnnotation annotating last
        rw [bound.annotationOnly] at expected
        cases expected

/-- What is bound stays bound where the stretch between the two stays. -/
theorem of_infix
    (bound : Bound lines annotating between declaration)
    {after : List Line}
    (kept : annotating :: between ++ [declaration] <:+: after) :
    Bound after annotating between declaration where
  occurs := kept
  annotates := bound.annotates
  annotationOnly := bound.annotationOnly
  next := bound.next
  declares := bound.declares

end Bound

namespace Source

variable {source : Source} {between : List Line} {annotating declaration : Line}

/-- Member order keeps a stretch that ends with text and lies in one part of the split. -/
theorem infix_canonicalStage
    {run : List Line}
    (ends : Canonical.EndsInText run)
    (holds : (MemberSplit.ofLines source.lines).Holds run) :
    run <:+: source.canonicalStage.1.lines := by
  rcases source.canonicalStage_fst with same | arranged
  · obtain ⟨part, isPart, occurs⟩ := holds
    have whole := occurs.trans (List.infix_of_mem_flatten isPart)
    rw [MemberSplit.flatten_parts_ofLines] at whole
    rw [same]
    exact whole
  · rw [arranged]
    exact Canonical.infix_arrange ends holds

/-- Member order keeps what is bound inside one part of the split. -/
theorem Consistent.bound_canonicalStage
    (consistent : source.Consistent)
    (bound : Bound source.lines annotating between declaration)
    (holds :
      (MemberSplit.ofLines source.lines).Holds (annotating :: between ++ [declaration])) :
    Bound source.canonicalStage.1.lines annotating between declaration := by
  have isLine : declaration ∈ source.lines := bound.occurs.subset (by simp)
  have ends : Canonical.EndsInText (annotating :: between ++ [declaration]) := by
    refine ⟨_, declaration, rfl, ?_⟩
    rw [← consistent.fresh] at isLine
    simp [Line.isBlank, isBlank_eq_false_of_isStatement isLine bound.declares]
  exact bound.of_infix (infix_canonicalStage ends holds)

/--
Member order of a known file keeps every annotation at class scope with its
declaration when only comments stand between them.  In a file whose parts stand
for themselves it keeps every annotation with its declaration, and all lines are
known afterwards as they were before.
-/
theorem canonicalStage_keeps_annotations
    (source : Source)
    (consistent : source.Consistent) :
    let result := source.canonicalStage.1
    (∀ annotating between declaration,
      Bound source.lines annotating between declaration →
        annotating.depth = 0 →
          (∀ line ∈ between, line.category = .comment) →
            Bound result.lines annotating between declaration) ∧
      ((MemberSplit.ofLines source.lines).SelfContained →
        (∀ annotating between declaration,
          Bound source.lines annotating between declaration →
            Bound result.lines annotating between declaration) ∧
          result.refresh = result ∧
          Canonical.Regrouped source.lines result.refresh.lines) := by
  intro result
  refine ⟨?_, ?_⟩
  · intro annotating between declaration bound atClassScope comments
    apply consistent.bound_canonicalStage bound
    have read : Bound (refreshLines source.unit source.lines) annotating between declaration := by
      rwa [consistent.fresh]
    exact (read.tied atClassScope comments).cut bound.occurs
  · intro contained
    have unchanged := (consistent.canonicalStage contained).refresh_eq
    refine ⟨?_, unchanged, ?_⟩
    · intro annotating between declaration bound
      apply consistent.bound_canonicalStage bound
      apply exists_part_of_unparted (List.cons_ne_nil _ _)
      · intro part isPart early late shape suffix
        have rests : Rests part := by
          rcases List.mem_cons.mp isPart with rfl | ofMember
          · exact contained.prelude
          · obtain ⟨member, isMember, rfl⟩ := List.mem_map.mp ofMember
            exact contained.members member isMember
        exact bound.unparted rests shape suffix
      · rw [MemberSplit.flatten_parts_ofLines]
        exact bound.occurs
    · rw [unchanged]
      exact source.regrouped_canonicalStage

/-- A commented annotation stays with its field when both move above a private field. -/
theorem canonicalStage_keeps_annotation_over_comment :
    let source :=
      (ofContent "x.gd" "var _b = 2\n@export\n# speed\nvar a = 1\n".toList).refresh
    source.Consistent ∧
      (MemberSplit.ofLines source.lines).SelfContained ∧
      source.canonicalStage.1.texts =
        ["@export", "# speed", "var a = 1", "", "var _b = 2"].map String.toList ∧
      source.canonicalStage.1.refresh = source.canonicalStage.1 ∧
      ∃ annotating between declaration,
        Bound source.lines annotating between declaration ∧
          Bound source.canonicalStage.1.lines annotating between declaration := by
  intro source
  have consistent : source.Consistent := refresh_consistent _
  have contained : (MemberSplit.ofLines source.lines).SelfContained := by
    decide +kernel
  obtain ⟨overComments, whenContained⟩ := canonicalStage_keeps_annotations source consistent
  refine ⟨consistent, contained, by decide +kernel, (whenContained contained).2.1, ?_⟩
  let annotating : Line :=
    { number := 2
      source := "@export".toList
      text := "@export".toList
      category := .exportedField
      annotationOnly := true }
  let comment : Line :=
    { number := 3, source := "# speed".toList, text := "# speed".toList, category := .comment }
  let declaration : Line :=
    { number := 4
      source := "var a = 1".toList
      text := "var a = 1".toList
      category := .exportedField }
  have bound : Bound source.lines annotating [comment] declaration := by
    decide +kernel
  refine ⟨annotating, [comment], declaration, bound, ?_⟩
  exact overComments annotating [comment] declaration bound rfl (by simp [comment])

/--
An annotation that a blank line parts from its field is left to another field,
and both fields are known differently afterwards.
-/
theorem canonicalStage_leaves_annotation_to_another_field :
    let source :=
      (ofContent "x.gd" "var b = 1\n@export\n\nvar _a = 2\nvar c = 3\n".toList).refresh
    source.Consistent ∧
      source.categories =
        [.publicField, .exportedField, .blank, .exportedField, .publicField] ∧
      source.canonicalStage.1.texts =
        ["var _a = 2", "", "var b = 1", "@export", "", "var c = 3"].map String.toList ∧
      source.canonicalStage.1.refresh.categories =
        [.privateField, .blank, .publicField, .exportedField, .blank, .exportedField] := by
  refine ⟨refresh_consistent _, ?_, ?_, ?_⟩
  · decide +kernel
  · decide +kernel
  · decide +kernel

end Source

end ScriptUplift
