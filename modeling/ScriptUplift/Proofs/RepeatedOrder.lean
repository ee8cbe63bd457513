import Mathlib.Tactic.Common
import ScriptUplift.Proofs.ArrangedAgain
import ScriptUplift.Proofs.MemberLayout
import ScriptUplift.Proofs.OtherPlaces

namespace ScriptUplift

/-!
# Repeated member order is idle

A file in canonical order is read again.  Where nothing is open between its
parts, every line is read with the outline it had, so that the file is split as
it was arranged.  If the members are then read into the buckets they were put
into, a second application changes nothing.  Two things stand in the way: an
annotation or an opened block that bears on another member after the move, and
nested lines above the first member that member order puts below another one.
-/

/-! ## Reading at another place -/

theorem isTrivia_classifyAnnotations
    (context : Context)
    (kind : AnnotationKind) :
    (classifyAnnotations context kind).1.isTrivia = false := by
  unfold classifyAnnotations
  cases kind <;> dsimp only <;> (try split_ifs) <;> rfl

theorem Category.outline_of_code
    {category : Category}
    (code : category.isTrivia = false) :
    category.outline = .other := by
  rw [outline, code]
  rfl

/-- What is known of a line without the kind of its code is read off its text. -/
theorem classify_outline
    (first second : Context)
    (text : Text) :
    (classify first text).1.outline = (classify second text).1.outline ∧
      (classify first text).2 = (classify second text).2 := by
  have twice := classifiedTwice first second (.refl text)
  generalize classify first text = found at twice ⊢
  generalize classify second text = again at twice ⊢
  cases twice with
  | trivia isTrivia =>
      exact ⟨rfl, rfl⟩
  | annotations kind =>
      have plain (context : Context) : (classifyAnnotations context kind).1.outline = .other :=
        Category.outline_of_code (isTrivia_classifyAnnotations context kind)
      rw [plain first, plain second, classifyAnnotations_snd, classifyAnnotations_snd]
      exact ⟨rfl, rfl⟩
  | code own code =>
      have plain (context : Context) (depth : Nat) (kind : AnnotationKind) :
          (Category.ofKeyword context depth kind code).outline = .other :=
        Category.outline_of_code (Category.ofKeywordWithin_ofCode _ _ _ _ _).2
      exact ⟨(plain _ _ _).trans (plain _ _ _).symm, rfl⟩

theorem Line.readIn_outline
    {first second : Context}
    (sameUnit : first.unit = second.unit)
    (line : Line)
    (carry : Carry)
    (opens : Bool) :
    (line.readIn carry first opens).outline = (line.readIn carry second opens).outline := by
  obtain ⟨sameOutline, sameAnnotated⟩ := classify_outline first second line.text
  have sameTrivia :
      (classify first line.text).1.isTrivia = (classify second line.text).1.isTrivia := by
    rw [← Category.isTrivia_outline, sameOutline, Category.isTrivia_outline]
  by_cases neutral : carry.isNeutral = true
  · simp only [readIn, outline, neutral, if_true, sameUnit, sameOutline, sameAnnotated, sameTrivia]
  · simp only [readIn, outline, neutral, sameUnit]
    rfl

/-- Lines are read with the same outlines in every context. -/
theorem readLines_outline
    {first second : Context}
    (sameUnit : first.unit = second.unit)
    (carry : Carry)
    (lines : List Line) :
    (readLines carry first lines).map Line.outline =
      (readLines carry second lines).map Line.outline := by
  induction lines generalizing carry first second with
  | nil =>
      rfl
  | cons line rest inductionHypothesis =>
      have sameBelow (firstLine secondLine : Line) :
          (first.below firstLine).unit = (second.below secondLine).unit := by
        rw [Context.unit_below, Context.unit_below, sameUnit]
      rw [readLines_cons, readLines_cons, List.map_cons, List.map_cons,
        line.readIn_outline sameUnit, inductionHypothesis (sameBelow _ _)]

/-- Lines that leave nothing open and are read everywhere with the outlines they have. -/
structure Outlined
    (unit : IndentUnit)
    (lines : List Line) :
    Prop where
  closed : Carry.neutral.through (lines.map (·.text)) = .neutral
  reads : ∀ context : Context, context.unit = unit →
    (readLines .neutral context lines).map Line.outline = lines.map Line.outline

namespace Outlined

variable {unit : IndentUnit}

theorem of_readsIn
    {context : Context}
    {lines : List Line}
    (readsIn : ReadsIn context lines) :
    Outlined context.unit lines where
  closed := readsIn.closed
  reads other sameUnit := by
    rw [readLines_outline sameUnit, readsIn.reads]

theorem nil :
    Outlined unit [] :=
  ⟨rfl, fun _ _ => rfl⟩

theorem separator :
    Outlined unit [Canonical.separator] :=
  ⟨by decide, fun _ _ => rfl⟩

theorem append
    {first second : List Line}
    (firstOutlined : Outlined unit first)
    (secondOutlined : Outlined unit second) :
    Outlined unit (first ++ second) where
  closed := by
    rw [List.map_append, Carry.through_append, firstOutlined.closed, secondOutlined.closed]
  reads context sameUnit := by
    have below : (context.belowAll (readLines .neutral context first)).unit = unit := by
      rw [context.unit_belowAll, sameUnit]
    rw [readLines_append firstOutlined.closed, List.map_append, firstOutlined.reads _ sameUnit,
      secondOutlined.reads _ below, List.map_append]

theorem flatMap_lines
    {members : List Member}
    (outlined : ∀ member ∈ members, Outlined unit member.lines) :
    Outlined unit (members.flatMap Member.lines) := by
  induction members with
  | nil =>
      exact nil
  | cons member rest inductionHypothesis =>
      obtain ⟨own, others⟩ := List.forall_mem_cons.mp outlined
      exact own.append (inductionHypothesis others)

end Outlined

/-! ## Reading arranged members -/

/-- The first line of a member continues nothing, when nothing nested is in the lead. -/
theorem Member.exists_first
    {member : Member}
    (headed : member.Headed)
    (plain : member.LeadsPlainly) :
    ∃ line below, member.lines = line :: below ∧ line.continues = false := by
  cases lead : member.lead with
  | nil =>
      refine ⟨member.head, member.body, by simp [lines, lead], ?_⟩
      exact Line.continues_of_isStatement (Line.isStatement_of_isHead headed.head)
  | cons first rest =>
      have loose := plain first (lead ▸ List.mem_cons_self)
      rw [Line.isNested, Bool.or_eq_false_iff] at loose
      exact ⟨first, rest ++ member.head :: member.body, by simp [lines, lead], loose.1⟩

/-- Members that are read one after the other, with nothing nested in a lead, are read each alone. -/
theorem exists_readsIn
    {context : Context}
    {members : List Member}
    (headed : ∀ member ∈ members, member.Headed)
    (plain : ∀ member ∈ members.tail, member.LeadsPlainly)
    (readsIn : ReadsIn context (members.flatMap Member.lines)) :
    ∀ member ∈ members, ∃ own, own.unit = context.unit ∧ ReadsIn own member.lines := by
  induction members generalizing context with
  | nil =>
      exact fun _ isMember => absurd isMember List.not_mem_nil
  | cons member rest inductionHypothesis =>
      have restPlain : ∀ other ∈ rest, other.LeadsPlainly :=
        plain
      obtain ⟨closed, reads⟩ := readsIn
      rw [List.flatMap_cons] at reads closed
      have ownClosed : Carry.neutral.through (member.lines.map (·.text)) = .neutral := by
        cases rest with
        | nil =>
            simpa using closed
        | cons next others =>
            obtain ⟨line, below, shape, starts⟩ := Member.exists_first
              (headed next (by simp)) (restPlain next List.mem_cons_self)
            rw [List.flatMap_cons, shape, List.cons_append] at reads
            exact closed_of_starts reads starts
      rw [List.map_append, Carry.through_append, ownClosed] at closed
      obtain ⟨ownReads, restReads⟩ := ReadsIn.of_append ownClosed reads
      have others := inductionHypothesis
        (fun other isOther => headed other (List.mem_cons_of_mem _ isOther))
        (fun other isOther => restPlain other (List.mem_of_mem_tail isOther))
        ⟨closed, restReads⟩
      rw [context.unit_belowAll] at others
      exact List.forall_mem_cons.mpr ⟨⟨context, rfl, ownReads⟩, others⟩

instance (member : Member) : Decidable member.LeadsPlainly :=
  inferInstanceAs (Decidable (∀ line ∈ member.lead, line.isNested = false))

namespace MemberSplit

/--
Member order can put the members down anywhere: nothing is open where the first
of them begins, and nothing nested is in the lead of one that it puts below
another.
-/
structure Movable
    (split : MemberSplit) :
    Prop where
  closed : Carry.neutral.through (split.prelude.map (·.text)) = .neutral
  plain : ∀ member ∈ (Canonical.sortedMembers split.members).tail, member.LeadsPlainly

end MemberSplit

/-- Arranged lines are read with the outlines they have. -/
theorem Canonical.outlined_arrange
    {unit : IndentUnit}
    {lines : List Line}
    (fresh : refreshLines unit lines = lines)
    (closed : Carry.neutral.through (lines.map (·.text)) = .neutral)
    (preludeClosed : Carry.neutral.through
      ((MemberSplit.ofLines lines).prelude.map (·.text)) = .neutral)
    (someMember : (MemberSplit.ofLines lines).members ≠ [])
    (text : ∀ member ∈ (MemberSplit.ofLines lines).members, member.head.isBlank = false) :
    Outlined unit (arrange (MemberSplit.ofLines lines)) := by
  have tight : MemberSplit.Tight false (MemberSplit.ofLines lines) :=
    MemberSplit.tight_cut (by simp) (by simp)
  have headed : ∀ member ∈ (MemberSplit.ofLines lines).members, member.Headed :=
    fun _ => MemberSplit.headed_of_mem_ofLines
  have reads : readLines .neutral { unit := unit } lines = lines := fresh
  rw [← MemberSplit.ofLines_lines lines] at reads closed
  rw [List.map_append, Carry.through_append, preludeClosed] at closed
  obtain ⟨preludeReads, membersRead⟩ := ReadsIn.of_append preludeClosed reads
  have ownReads := exists_readsIn headed tight.leads ⟨closed, membersRead⟩
  rw [Context.unit_belowAll] at ownReads
  have ofReads {context : Context} (sameUnit : context.unit = unit) {part : List Line}
      (readsIn : ReadsIn context part) : Outlined unit part :=
    sameUnit ▸ Outlined.of_readsIn readsIn
  have topOutlined : Outlined unit (top (MemberSplit.ofLines lines).prelude) := by
    unfold top
    split
    · exact .nil
    · exact (ofReads rfl preludeReads.withoutTrailingBlanks).append .separator
  rw [arrange_eq someMember headed text]
  refine topOutlined.append (.flatMap_lines fun member isSettled => ?_)
  obtain ⟨before, isMember, kept, added, isKept, isAdded, rfl⟩ := exists_of_mem_settle isSettled
  have isOld := (List.mergeSort_perm _ _).subset isMember
  obtain ⟨context, sameUnit, readsIn⟩ := ownReads before isOld
  rw [Member.lines_followedBy]
  refine .append ?_ ?_
  · rcases isKept with rfl | rfl
    · exact ofReads sameUnit readsIn
    · rw [lines_trimmed (text before isOld)]
      exact ofReads sameUnit readsIn.withoutTrailingBlanks
  · rcases isAdded with rfl | rfl
    · exact .nil
    · exact .separator

namespace Source

/-- Member order of a file that is in order leaves its texts. -/
theorem texts_canonicalStage_of_ordered
    {source : Source}
    (noOrphan : ∀ line ∈ source.lines, line.category ≠ .orphan)
    (ordered : Canonical.Ordered source.lines) :
    source.canonicalStage.1.texts = source.texts := by
  rcases canonicalStage_cases noOrphan with ⟨_, same⟩ | ⟨disordered, _⟩
  · rw [same]
    rfl
  · exact absurd ordered disordered

/-- Recomputation of a file with a settled unit reads its lines again. -/
theorem lines_refresh
    {source : Source}
    (settled : source.unit.isUnsettled = false) :
    source.refresh.lines = refreshLines source.unit source.lines := by
  unfold refresh
  simp only [settled, Bool.false_eq_true, if_false]

/-- Arranged lines that are read into the buckets they were put into are in order. -/
theorem Consistent.ordered_of_ranks
    {source : Source}
    (consistent : source.Consistent)
    (closed : Carry.neutral.through source.texts = .neutral)
    (movable : (MemberSplit.ofLines source.lines).Movable)
    (someMember : (MemberSplit.ofLines source.lines).members ≠ [])
    {read : List Line}
    (isRead : read =
      refreshLines source.unit (Canonical.arrange (MemberSplit.ofLines source.lines)))
    (sameRanks : (MemberSplit.ofLines read).ranks =
      (MemberSplit.ofLines (Canonical.arrange (MemberSplit.ofLines source.lines))).ranks) :
    Canonical.Ordered read := by
  have text : ∀ member ∈ (MemberSplit.ofLines source.lines).members,
      member.head.isBlank = false :=
    fun _ => consistent.isBlank_eq_false_of_mem_members
  have outlined := Canonical.outlined_arrange consistent.fresh closed movable.closed someMember text
  have sameOutlines : read.map Line.outline =
      (Canonical.arrange (MemberSplit.ofLines source.lines)).map Line.outline := by
    rw [isRead]
    exact outlined.reads { unit := source.unit } rfl
  refine .inr ?_
  rw [Canonical.texts_arrange_congr (map_layout_eq sameOutlines sameRanks),
    Canonical.arrange_ofLines_arrange someMember text movable.plain, isRead, refreshLines_texts]

/--
A second application of member order leaves the texts of the first, when nothing
is open at the end of the file, nothing nested stands in the way of a member that
moves, and the members are read into the buckets they were put into.  They are
when every part of the split rests.
-/
theorem repeated_order_is_idle
    {source : Source}
    (consistent : source.Consistent)
    (closed : Carry.neutral.through source.texts = .neutral)
    (movable : (MemberSplit.ofLines source.lines).Movable) :
    let result := source.canonicalStage.1
    let again := result.refresh
    (MemberSplit.ofLines again.lines).ranks = (MemberSplit.ofLines result.lines).ranks ∨
        (MemberSplit.ofLines source.lines).SelfContained →
      again.canonicalStage.2 = none ∧ again.canonicalStage.1.texts = result.texts := by
  intro result again steady
  have noOrphan : ∀ line ∈ again.lines, line.category ≠ .orphan :=
    fun _ => (refresh_consistent result).category_ne_orphan
  have sameTexts : again.texts = result.texts :=
    refreshLines_texts _ _
  have settled : result.unit.isUnsettled = false := by
    rw [canonicalStage_unit]
    exact consistent.settled
  have againLines : again.lines = refreshLines source.unit result.lines := by
    rw [lines_refresh settled, canonicalStage_unit]
  have sameRanks :
      (MemberSplit.ofLines again.lines).ranks = (MemberSplit.ofLines result.lines).ranks := by
    rcases steady with sameRanks | contained
    · exact sameRanks
    · have unchanged : again = result := (consistent.canonicalStage contained).refresh_eq
      rw [unchanged]
  have ordered : Canonical.Ordered again.lines := by
    rcases canonicalStage_cases fun _ => consistent.category_ne_orphan with
      ⟨ordered, same⟩ | ⟨disordered, changed⟩
    · have sameLines : result.lines = source.lines :=
        (congrArg Source.lines same).trans rfl
      rwa [againLines, sameLines, consistent.fresh]
    · have arranged : result.lines = Canonical.arrange (MemberSplit.ofLines source.lines) :=
        (congrArg Source.lines changed).trans rfl
      rw [arranged] at againLines sameRanks
      exact consistent.ordered_of_ranks closed movable (fun none => disordered (.inl none))
        againLines sameRanks
  refine ⟨?_, ?_⟩
  · rw [← Option.not_isSome_iff_eq_none, canonicalStage_refuses_iff]
    rintro ⟨line, member, orphan⟩
    exact noOrphan line member orphan
  · rw [texts_canonicalStage_of_ordered noOrphan ordered, sameTexts]

/-- A class under a text of two lines, above a function and two fields. -/
def documentedClass : Source :=
  let lines := ["\"\"\"doc", "more\"\"\"", "class_name X", "func _f():", "\tpass", "", "",
    "# speed", "@export", "var a = 1", "var b = 2"]
  (ofContent "x.gd" (Text.joinWith ['\n'] (lines.map String.toList))).refresh

/-- The fields go above the function, under the text that leads the class, and stay there. -/
theorem fields_stay_above_function :
    let source := documentedClass
    let result := source.canonicalStage.1
    let again := result.refresh
    source.Consistent ∧
      Carry.neutral.through source.texts = .neutral ∧
      (MemberSplit.ofLines source.lines).Movable ∧
      (MemberSplit.ofLines again.lines).ranks = (MemberSplit.ofLines result.lines).ranks ∧
      result.texts =
        ["\"\"\"doc", "more\"\"\"", "class_name X", "", "# speed", "@export", "var a = 1", "",
          "var b = 2", "", "func _f():", "\tpass"].map String.toList ∧
      again.canonicalStage.1.texts = result.texts := by
  intro source result again
  have consistent : source.Consistent := refresh_consistent _
  obtain ⟨closed, preludeClosed, sameRanks, texts⟩ :
      Carry.neutral.through source.texts = .neutral ∧
        Carry.neutral.through ((MemberSplit.ofLines source.lines).prelude.map (·.text)) =
          .neutral ∧
        (MemberSplit.ofLines again.lines).ranks = (MemberSplit.ofLines result.lines).ranks ∧
        result.texts =
          ["\"\"\"doc", "more\"\"\"", "class_name X", "", "# speed", "@export", "var a = 1", "",
            "var b = 2", "", "func _f():", "\tpass"].map String.toList := by
    decide +kernel
  have movable : (MemberSplit.ofLines source.lines).Movable := by
    refine ⟨preludeClosed, ?_⟩
    rw [← Canonical.flatMap_membersOf_eq_sortedMembers fun member isMember =>
      MemberSplit.bucket_mem_of_mem_ofLines isMember]
    decide +kernel
  exact ⟨consistent, closed, movable, sameRanks, texts,
    (repeated_order_is_idle consistent closed movable (.inl sameRanks)).2⟩

/--
An annotation that a blank line parts from its field goes to another field, and
the second application puts both back.  A text of two lines that leads the first
member is cut apart from it once the member stands below another.
-/
theorem second_application_changes_texts :
    let parted := (ofContent "x.gd" "var b = 1\n@export\n\nvar _a = 2\n".toList).refresh
    let documented :=
      (ofContent "x.gd" "\"\"\"doc\nmore\"\"\"\nfunc f():\n\tpass\nvar a = 1\n".toList).refresh
    (parted.Consistent ∧
        Carry.neutral.through parted.texts = .neutral ∧
        parted.canonicalStage.1.texts =
          ["var _a = 2", "", "var b = 1", "@export"].map String.toList ∧
        parted.canonicalStage.1.refresh.canonicalStage.1.texts =
          ["var b = 1", "@export", "", "var _a = 2"].map String.toList) ∧
      documented.Consistent ∧
        Carry.neutral.through documented.texts = .neutral ∧
        documented.canonicalStage.1.texts =
          ["var a = 1", "", "\"\"\"doc", "more\"\"\"", "func f():", "\tpass"].map String.toList ∧
        documented.canonicalStage.1.refresh.canonicalStage.1.texts =
          ["var a = 1", "", "\"\"\"doc", "more\"\"\"", "", "func f():", "\tpass"].map
            String.toList := by
  refine ⟨⟨refresh_consistent _, ?_⟩, refresh_consistent _, ?_⟩
  · decide +kernel
  · decide +kernel

end Source

end ScriptUplift
