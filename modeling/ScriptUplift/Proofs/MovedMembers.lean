import Mathlib.Data.List.DropRight
import Mathlib.Data.List.Infix
import Mathlib.Tactic.Common
import ScriptUplift.Proofs.AnnotationBinding

namespace ScriptUplift

/-!
# Members move with what belongs to them

The comments and annotations directly above a statement at class scope belong to
it, from the first one on that is no indented comment, and so do the lines
nested under it.  Splitting a file puts the three into one member, and member
order moves them as one stretch.
-/

namespace Line

/-- Whether a line can belong to the member below: a comment, or an annotation at class scope. -/
def isAttached
    (line : Line) :
    Bool :=
  !line.continues && !line.isBlank &&
    (line.category == .comment || line.annotationOnly && line.depth == 0)

/-- Whether a line is an indented comment. -/
def isIndentedComment
    (line : Line) :
    Bool :=
  decide (0 < line.depth) && line.category == .comment

/-- A line that can belong to the member below begins no member and is nested in none. -/
theorem apart_of_isAttached
    {line : Line}
    (attached : line.isAttached = true) :
    line.isHead = false ∧ line.isNested = false := by
  simp only [isAttached, Bool.and_eq_true, Bool.or_eq_true, Bool.not_eq_true', beq_iff_eq]
    at attached
  obtain ⟨⟨starts, _⟩, comment | ⟨annotates, atClassScope⟩⟩ := attached
  · simp [isHead, isNested, starts, comment, Category.isTrivia]
  · simp [isHead, isNested, starts, annotates, atClassScope]

end Line

/-- Lines that belong to the member below them. -/
structure Company
    (lines : List Line) :
    Prop where
  attached : ∀ line ∈ lines, line.isAttached = true
  begins : ∀ line ∈ lines.head?, line.isIndentedComment = false

/-- Lines that are nested under a member above them, down to the last of them. -/
structure NestedBelow
    (lines : List Line) :
    Prop where
  noHead : ∀ line ∈ lines, line.isHead = false
  ends : ∀ line ∈ lines.getLast?, line.isNested = true

/-! ## Splitting -/

/-- What holds of all later lines does not stop the last lines of which it holds. -/
theorem rtakeWhile_append_of_pos
    {property : Line → Bool}
    {second : List Line}
    (all : ∀ line ∈ second, property line = true)
    (first : List Line) :
    (first ++ second).rtakeWhile property = first.rtakeWhile property ++ second := by
  have reversed : ∀ line ∈ second.reverse, property line = true :=
    fun line isLine => all line (List.mem_reverse.mp isLine)
  rw [List.rtakeWhile, List.reverse_append, List.takeWhile_append_of_pos reversed,
    List.reverse_append, List.reverse_reverse]
  rfl

/-- Text that does not begin with indented trivia is in the lead of the member directly below. -/
theorem MemberSplit.snd_cutLead_append
    {own : List Line}
    (text : ∀ line ∈ own, line.isBlank = false)
    (begins : ∀ line ∈ own.head?, line.isIndentedTrivia = false)
    (above : List Line) :
    (cutLead (above ++ own)).2 =
      (above.rtakeWhile (!·.isBlank)).dropWhile (·.isIndentedTrivia) ++ own := by
  have visible : ∀ line ∈ own, (!line.isBlank) = true := by
    intro line isLine
    rw [text line isLine]
    rfl
  have block := rtakeWhile_append_of_pos visible above
  have kept : own.dropWhile (·.isIndentedTrivia) = own := by
    cases own with
    | nil =>
        rfl
    | cons first rest =>
        exact List.dropWhile_cons_of_neg (by simp [begins first rfl])
  unfold cutLead
  dsimp only
  rw [← List.rtakeWhile, block, List.dropWhile_append, kept]
  split
  · rename_i nothing
    rw [List.isEmpty_iff.mp nothing]
    rfl
  · rfl

/-- Lines that belong to a member directly below them are in its lead. -/
theorem Company.suffix_cutLead
    {company pending : List Line}
    (belongs : Company company)
    (directlyAbove : company <:+ pending) :
    company <:+ (MemberSplit.cutLead pending).2 := by
  obtain ⟨higher, rfl⟩ := directlyAbove
  rw [MemberSplit.snd_cutLead_append]
  · exact List.suffix_append _ _
  · intro line isLine
    have attached := belongs.attached line isLine
    simp only [Line.isAttached, Bool.and_eq_true, Bool.not_eq_true'] at attached
    exact attached.1.2
  · intro first isFirst
    have notIndented := belongs.begins first isFirst
    have attached := belongs.attached first (List.mem_of_mem_head? isFirst)
    simp only [Line.isAttached, Bool.and_eq_true, Bool.or_eq_true, beq_iff_eq] at attached
    obtain ⟨_, comment | ⟨_, atClassScope⟩⟩ := attached
    · simpa [Line.isIndentedTrivia, Line.isIndentedComment, comment, Category.isTrivia]
        using notIndented
    · simp [Line.isIndentedTrivia, atClassScope]

/-- Lines nested under an open member are put into it, with what waits above them. -/
theorem NestedBelow.cut_eq
    {nested : List Line}
    (isNested : NestedBelow nested)
    (someLine : nested ≠ [])
    (pending rest : List Line) :
    MemberSplit.cut true pending (nested ++ rest) =
      MemberSplit.push (pending ++ nested) (MemberSplit.cut true [] rest) := by
  induction nested generalizing pending with
  | nil =>
      exact absurd rfl someLine
  | cons first others inductionHypothesis =>
      obtain ⟨notHead, noHead⟩ := List.forall_mem_cons.mp isNested.noHead
      rw [List.cons_append, MemberSplit.cut, if_neg (by simp [notHead])]
      rcases List.eq_nil_or_concat' others with rfl | ⟨inside, last, rfl⟩
      · rw [if_pos (by simp [isNested.ends first rfl])]
        rfl
      · have ends : ∀ line ∈ (inside ++ [last]).getLast?, line.isNested = true := by
          have ownEnds := isNested.ends
          rwa [← List.cons_append, List.getLast?_concat, ← List.getLast?_concat] at ownEnds
        have inRest := inductionHypothesis ⟨noHead, ends⟩ (by simp)
        split
        · rw [inRest]
          simp [MemberSplit.push]
        · rw [inRest]
          simp

/-- Lines at the end of others end what follows any line that is not among them. -/
theorem suffix_below
    {run above below : List Line}
    {line : Line}
    (without : line ∉ run)
    (ends : run <:+ above ++ line :: below) :
    run <:+ below := by
  rcases List.suffix_or_suffix_of_suffix ends (List.suffix_append above (line :: below)) with
    short | long
  · rcases List.suffix_cons_iff.mp short with rfl | inside
    · exact absurd List.mem_cons_self without
    · exact inside
  · exact absurd (long.subset List.mem_cons_self) without

/-- A statement at class scope begins a member with all that belongs to it. -/
theorem MemberSplit.exists_mem_cut
    {company nested : List Line}
    (belongs : Company company)
    (isNested : NestedBelow nested)
    {head : Line}
    (isHead : head.isHead = true)
    {inMember : Bool}
    {pending above below : List Line}
    (directlyAbove : company <:+ pending ++ above)
    (directlyBelow : nested <+: below) :
    ∃ member ∈ (cut inMember pending (above ++ head :: below)).members,
      company <:+ member.lead ∧ member.head = head ∧ nested <+: member.body := by
  have notAmong {line : Line} (stops : line.isHead = true ∨ line.isNested = true) :
      line ∉ company := by
    intro isLine
    obtain ⟨notHead, notNested⟩ := Line.apart_of_isAttached (belongs.attached line isLine)
    simp [notHead, notNested] at stops
  induction above generalizing inMember pending with
  | nil =>
      rw [List.nil_append, cut, if_pos isHead]
      refine ⟨_, List.mem_cons_self, ?_, rfl, ?_⟩
      · exact belongs.suffix_cutLead (by simpa using directlyAbove)
      · obtain ⟨lower, rfl⟩ := directlyBelow
        by_cases nothing : nested = []
        · rw [nothing]
          exact List.nil_prefix
        · rw [isNested.cut_eq nothing]
          exact List.prefix_append _ _
  | cons line rest inductionHypothesis =>
      rw [List.cons_append, cut]
      split
      · rename_i begins
        obtain ⟨member, isMember, own⟩ := @inductionHypothesis true []
          (suffix_below (notAmong (.inl begins)) directlyAbove)
        exact ⟨member, List.mem_cons_of_mem _ isMember, own⟩
      · split
        · rename_i inside
          have within : line.isNested = true := (Bool.and_eq_true_iff.mp inside).2
          exact @inductionHypothesis true []
            (suffix_below (notAmong (.inr within)) directlyAbove)
        · exact inductionHypothesis (by simpa using directlyAbove)

/-! ## What belongs to a member -/

namespace Member

/--
What belongs to a member above it: the block of comments and annotations
directly above, without the indented comments it begins with.
-/
def ownAbove
    (above : List Line) :
    List Line :=
  (above.rtakeWhile (·.isAttached)).dropWhile (·.isIndentedComment)

/-- What belongs to a member below it: all down to the last nested line before the next member. -/
def ownBelow
    (below : List Line) :
    List Line :=
  (below.takeWhile (!·.isHead)).rdropWhile (!·.isNested)

theorem company_ownAbove
    (above : List Line) :
    Company (ownAbove above) where
  attached line isLine :=
    List.mem_rtakeWhile_imp ((List.dropWhile_sublist _).subset isLine)
  begins line isFirst := by
    have notIndented := List.head?_dropWhile_not (·.isIndentedComment)
      (above.rtakeWhile (·.isAttached))
    rw [ownAbove] at isFirst
    rwa [Option.mem_def.mp isFirst] at notIndented

theorem suffix_ownAbove
    (above : List Line) :
    ownAbove above <:+ above :=
  (List.dropWhile_suffix _).trans (List.rtakeWhile_suffix _ above)

theorem nestedBelow_ownBelow
    (below : List Line) :
    NestedBelow (ownBelow below) where
  noHead line isLine := by
    simpa using List.mem_takeWhile_imp ((List.rdropWhile_prefix _ _).subset isLine)
  ends line isLast := by
    obtain ⟨someLine, rfl⟩ := List.mem_getLast?_eq_getLast isLast
    simpa [ownBelow] using List.rdropWhile_last_not _ _ someLine

theorem prefix_ownBelow
    (below : List Line) :
    ownBelow below <+: below :=
  (List.rdropWhile_prefix _ _).trans (List.takeWhile_prefix _)

end Member

/-- The end of what is above a line and the begin of what is below stand around it. -/
theorem infix_around
    {own above nested below : List Line}
    (ends : own <:+ above)
    (begins : nested <+: below)
    (line : Line) :
    own ++ line :: nested <:+: above ++ line :: below := by
  obtain ⟨front, rfl⟩ := ends
  obtain ⟨rest, rfl⟩ := begins
  exact ⟨front, rest, by simp⟩

namespace Source

/-- First lines of members and nested lines have text. -/
theorem Consistent.isBlank_eq_false
    {source : Source}
    (consistent : source.Consistent)
    {line : Line}
    (isLine : line ∈ source.lines)
    (placed : line.isHead = true ∨ line.isNested = true) :
    line.isBlank = false := by
  by_contra blank
  have blank : line.isBlank = true := by
    simpa using blank
  rw [← consistent.fresh] at isLine
  have category := category_of_isBlank isLine blank
  rw [Line.isBlank, Bool.and_eq_true, Bool.not_eq_true'] at blank
  simp [Line.isHead, Line.isNested, category, blank.1, Category.isTrivia] at placed

/--
Every member of a known file stands in the reordered file with what belongs to
it directly above and below, line by line as it was.
-/
theorem canonicalStage_keeps_members_together
    {source : Source}
    (consistent : source.Consistent)
    {above below : List Line}
    {head : Line}
    (shape : source.lines = above ++ head :: below)
    (isHead : head.isHead = true) :
    Member.ownAbove above ++ head :: Member.ownBelow below <:+:
      source.canonicalStage.1.lines := by
  have inFile : Member.ownAbove above ++ head :: Member.ownBelow below <:+: source.lines := by
    rw [shape]
    exact infix_around (Member.suffix_ownAbove above) (Member.prefix_ownBelow below) head
  have nested := Member.nestedBelow_ownBelow below
  apply infix_canonicalStage
  · rcases List.eq_nil_or_concat' (Member.ownBelow below) with nothing | ⟨inside, last, own⟩
    · rw [nothing] at inFile ⊢
      exact ⟨_, head, rfl,
        consistent.isBlank_eq_false (inFile.subset (by simp)) (.inl isHead)⟩
    · have isNested : last.isNested = true :=
        nested.ends last (by simp [own])
      rw [own, ← List.cons_append, ← List.append_assoc] at inFile ⊢
      exact ⟨_, last, rfl,
        consistent.isBlank_eq_false (inFile.subset (by simp)) (.inr isNested)⟩
  · obtain ⟨member, isMember, inLead, rfl, inBody⟩ :=
      @MemberSplit.exists_mem_cut _ _ (Member.company_ownAbove above) nested _ isHead false []
        above below (Member.suffix_ownAbove above) (Member.prefix_ownBelow below)
    rw [← shape] at isMember
    exact ⟨member.lines, List.mem_cons_of_mem _ (List.mem_map_of_mem isMember),
      infix_around inLead inBody member.head⟩

/-- A public function below a private one, with annotated and nested lines of both. -/
def functionBelowPrivate : Source :=
  let lines := ["func _f():", "\tpass", "\t# of f", "# of g", "\t# too", "@rpc", "func g():",
    "\tvar x = [1,", "2]", "", "# in g", "\treturn x", "var a = 1"]
  (ofContent "x.gd" (Text.joinWith ['\n'] (lines.map String.toList))).refresh

/-- The public function moves with its comments, its annotation and its body. -/
theorem canonicalStage_moves_function_with_comments :
    let source := functionBelowPrivate
    let above := source.lines.take 6
    let below := source.lines.drop 7
    source.Consistent ∧
      source.canonicalStage.1.texts =
        ["var a = 1", "", "# of g", "\t# too", "@rpc", "func g():", "\tvar x = [1,", "2]", "",
          "# in g", "\treturn x", "", "func _f():", "\tpass", "\t# of f"].map
          String.toList ∧
      (Member.ownAbove above).map (·.text) =
        ["# of g", "\t# too", "@rpc"].map String.toList ∧
      (Member.ownBelow below).map (·.text) =
        ["\tvar x = [1,", "2]", "", "# in g", "\treturn x"].map String.toList ∧
      ∃ head : Line, head.text = "func g():".toList ∧
        source.lines = above ++ head :: below ∧
        head.isHead = true ∧
        Member.ownAbove above ++ head :: Member.ownBelow below <:+:
          source.canonicalStage.1.lines := by
  intro source above below
  have consistent : source.Consistent := refresh_consistent _
  let head : Line :=
    { number := 7
      source := "func g():".toList
      text := "func g():".toList
      category := .publicMethod
      opens := true }
  have shape : source.lines = above ++ head :: below := by
    decide +kernel
  refine ⟨consistent, by decide +kernel, by decide +kernel, by decide +kernel,
    head, rfl, shape, rfl, ?_⟩
  exact canonicalStage_keeps_members_together consistent shape rfl

end Source

end ScriptUplift
