import Mathlib.Data.List.DropRight
import Mathlib.Data.List.Induction
import Mathlib.Data.List.Pairwise
import Mathlib.Tactic.Common
import ScriptUplift.Proofs.BucketOrder
import ScriptUplift.Proofs.MovedMembers

namespace ScriptUplift

/-!
# Arranged members are cut as they stand

Cutting decides by the lines between two members what belongs to which.  A split
is found again when its lines are cut if no member has nested lines in its lead
and only indented trivia stands below the last nested or blank line of a body.
Member order leaves such a split: every member stands there as it was, but for
the blank lines at its end.  Arranging it once more therefore changes nothing.
-/

/-- At the end, below the last blank line, there is nothing but indented trivia. -/
def EndsClear
    (lines : List Line) :
    Prop :=
  ∀ line ∈ lines.rtakeWhile (!·.isBlank), line.isIndentedTrivia = true

theorem endsClear_nil :
    EndsClear [] := by
  simp [EndsClear]

theorem endsClear_concat_blank
    {line : Line}
    (isBlank : line.isBlank = true)
    (above : List Line) :
    EndsClear (above ++ [line]) := by
  intro other isOther
  rw [List.rtakeWhile_concat_neg _ _ _ (by simp [isBlank])] at isOther
  cases isOther

/-- What is below the last nested line of a body ends apart from a member below. -/
def ClosesBelow
    (body : List Line) :
    Prop :=
  EndsClear (body.rtakeWhile (!·.isNested))

/-- The last lines of which something holds are below every line of which it does not. -/
theorem rtakeWhile_below_neg
    {property : Line → Bool}
    {line : Line}
    (fails : property line = false)
    (above below : List Line) :
    (above ++ line :: below).rtakeWhile property = below.rtakeWhile property := by
  induction below using List.reverseRecOn with
  | nil =>
      rw [List.rtakeWhile_concat_neg _ _ _ (by simp [fails]), List.rtakeWhile_nil]
  | append_singleton most last inductionHypothesis =>
      rw [← List.cons_append, ← List.append_assoc, List.rtakeWhile_concat, inductionHypothesis,
        ← List.rtakeWhile_concat]

theorem closesBelow_concat_blank
    {line : Line}
    (isBlank : line.isBlank = true)
    (loose : line.isNested = false)
    (above : List Line) :
    ClosesBelow (above ++ [line]) := by
  rw [ClosesBelow, List.rtakeWhile_concat_pos _ _ _ (by simp [loose])]
  exact endsClear_concat_blank isBlank _

namespace Member

/-- A member as cutting leaves it: its lead does not begin with indented trivia. -/
structure Cut
    (member : Member) :
    Prop
    extends Headed member where
  begins : ∀ line ∈ member.lead.head?, line.isIndentedTrivia = false

/-- Nothing nested stands above the first line. -/
def LeadsPlainly
    (member : Member) :
    Prop :=
  ∀ line ∈ member.lead, line.isNested = false

end Member

namespace MemberSplit

/-- A split that is found again when its lines are cut, below an open member or below none. -/
structure Tight
    (inMember : Bool)
    (split : MemberSplit) :
    Prop where
  cut : ∀ member ∈ split.members, member.Cut
  leads : ∀ member ∈ if inMember then split.members else split.members.tail, member.LeadsPlainly
  closes : split.members.Pairwise fun member _ => ClosesBelow member.body

/-! ## Cutting -/

/-- What is above a lead ends apart from it. -/
theorem endsClear_cutLead
    (pending : List Line) :
    EndsClear (cutLead pending).1 := by
  let above := pending.rdropWhile (!·.isBlank)
  let block := pending.rtakeWhile (!·.isBlank)
  let comments := block.takeWhile (·.isIndentedTrivia)
  have whole : (cutLead pending).1 = above ++ comments := by
    have blockParts : comments ++ (cutLead pending).2 = block :=
      List.takeWhile_append_dropWhile
    have sameEnd : (cutLead pending).1 ++ (cutLead pending).2 =
        (above ++ comments) ++ (cutLead pending).2 := by
      rw [cutLead_append, List.append_assoc, blockParts]
      exact List.rdropWhile_append_rtakeWhile.symm
    exact List.append_cancel_right sameEnd
  have stops : above.rtakeWhile (!·.isBlank) = [] :=
    List.rtakeWhile_eq_nil_iff.mpr (List.rdropWhile_last_not _ _)
  have text : ∀ line ∈ comments, (!line.isBlank) = true :=
    fun line isComment => List.mem_rtakeWhile_imp (l := pending) (List.takeWhile_subset _ isComment)
  rw [EndsClear, whole, rtakeWhile_append_of_pos text, stops]
  exact fun line isComment => List.mem_takeWhile_imp isComment

/-- A lead is cut from what ends apart from it. -/
theorem cutLead_eq
    {above lead : List Line}
    (apart : EndsClear above)
    (text : ∀ line ∈ lead, line.isBlank = false)
    (begins : ∀ line ∈ lead.head?, line.isIndentedTrivia = false) :
    cutLead (above ++ lead) = (above, lead) := by
  have isLead : (cutLead (above ++ lead)).2 = lead := by
    rw [snd_cutLead_append text begins, List.dropWhile_eq_nil_iff.mpr apart, List.nil_append]
  have whole := cutLead_append (above ++ lead)
  rw [isLead] at whole
  exact Prod.ext (List.append_cancel_right whole) isLead

/-- Lines that begin no member and are nested in none that is open wait for the next. -/
theorem cut_loose
    {inMember : Bool}
    {loose : List Line}
    (apart : ∀ line ∈ loose, line.isHead = false ∧ (inMember && line.isNested) = false)
    (pending rest : List Line) :
    cut inMember pending (loose ++ rest) = cut inMember (pending ++ loose) rest := by
  induction loose generalizing pending with
  | nil =>
      rw [List.append_nil]
      rfl
  | cons line others inductionHypothesis =>
      obtain ⟨⟨notHead, notNested⟩, othersApart⟩ := List.forall_mem_cons.mp apart
      rw [List.cons_append, cut, if_neg (by simp [notHead]), if_neg (by simp [notNested]),
        inductionHypothesis othersApart]
      simp

/-- The lines of a body go to the open member, those below the last nested line after the others. -/
theorem cut_body
    {body : List Line}
    (noHead : ∀ line ∈ body, line.isHead = false)
    (rest : List Line) :
    cut true [] (body ++ rest) =
      push (body.rdropWhile (!·.isNested)) (cut true (body.rtakeWhile (!·.isNested)) rest) := by
  let nested := body.rdropWhile (!·.isNested)
  let loose := body.rtakeWhile (!·.isNested)
  have parts : nested ++ loose = body :=
    List.rdropWhile_append_rtakeWhile
  have apart : ∀ line ∈ loose, line.isHead = false ∧ (true && line.isNested) = false := by
    intro line isLoose
    have notNested := List.mem_rtakeWhile_imp isLoose
    exact ⟨noHead line (parts ▸ List.mem_append_right _ isLoose), by simpa using notNested⟩
  have placed : cut true [] (nested ++ (loose ++ rest)) =
      push nested (cut true [] (loose ++ rest)) := by
    by_cases nothing : nested = []
    · rw [nothing]
      rfl
    · refine NestedBelow.cut_eq ⟨?_, ?_⟩ nothing [] (loose ++ rest)
      · exact fun line isNested => noHead line (parts ▸ List.mem_append_left _ isNested)
      · intro line isLast
        obtain ⟨someLine, rfl⟩ := List.mem_getLast?_eq_getLast isLast
        simpa [nested] using List.rdropWhile_last_not _ _ someLine
  calc
    cut true [] (body ++ rest) = cut true [] (nested ++ (loose ++ rest)) := by
      rw [← List.append_assoc, parts]
    _ = push nested (cut true loose rest) := by
      rw [placed, cut_loose apart, List.nil_append]

/-- The lines of members that are cut below what ends apart are cut into the same members. -/
theorem Tight.cut_eq
    {inMember : Bool}
    {above : List Line}
    {members : List Member}
    (tight : Tight inMember ⟨above, members⟩)
    (apart : EndsClear above) :
    MemberSplit.cut inMember above (members.flatMap Member.lines) = ⟨above, members⟩ := by
  induction members generalizing inMember above with
  | nil =>
      rfl
  | cons member rest inductionHypothesis =>
      obtain ⟨ownCut, restCut⟩ := List.forall_mem_cons.mp tight.cut
      obtain ⟨ownCloses, restCloses⟩ := List.pairwise_cons.mp tight.closes
      have restLeads : ∀ other ∈ rest, other.LeadsPlainly := by
        have leads := tight.leads
        cases inMember with
        | false =>
            exact leads
        | true =>
            exact (List.forall_mem_cons.mp leads).2
      have lead : ∀ line ∈ member.lead, line.isHead = false ∧
          (inMember && line.isNested) = false := by
        intro line isLead
        refine ⟨ownCut.leadHead line isLead, ?_⟩
        cases inMember with
        | false =>
            rfl
        | true =>
            exact (List.forall_mem_cons.mp tight.leads).1 line isLead
      let loose := member.body.rtakeWhile (!·.isNested)
      have below : MemberSplit.cut true loose (rest.flatMap Member.lines) = ⟨loose, rest⟩ := by
        cases rest with
        | nil =>
            rfl
        | cons next others =>
            exact inductionHypothesis ⟨restCut, restLeads, restCloses⟩
              (ownCloses next List.mem_cons_self)
      have body : MemberSplit.cut true [] (member.body ++ rest.flatMap Member.lines) =
          ⟨member.body, rest⟩ := by
        rw [cut_body ownCut.body, below, push]
        simp [loose]
      calc
        MemberSplit.cut inMember above ((member :: rest).flatMap Member.lines) =
            MemberSplit.cut inMember above
              (member.lead ++ (member.head :: (member.body ++ rest.flatMap Member.lines))) := by
          simp [Member.lines]
        _ = push above (start member.lead member.head ⟨member.body, rest⟩) := by
          rw [cut_loose lead, MemberSplit.cut, if_pos ownCut.head,
            cutLead_eq apart ownCut.leadText ownCut.begins, body]
        _ = ⟨above, member :: rest⟩ := by
          simp [push, start]

/-- The lines of a split are cut into it again. -/
theorem Tight.ofLines_eq
    {split : MemberSplit}
    (tight : Tight false split)
    (apart : EndsClear split.prelude)
    (noHead : ∀ line ∈ split.prelude, line.isHead = false) :
    ofLines (split.prelude ++ split.members.flatMap Member.lines) = split := by
  rw [ofLines, cut_loose fun line isAbove => ⟨noHead line isAbove, rfl⟩]
  exact tight.cut_eq apart

theorem isIndentedTrivia_of_head?_cutLead
    {pending : List Line}
    {line : Line}
    (isFirst : line ∈ (cutLead pending).2.head?) :
    line.isIndentedTrivia = false := by
  have notIndented := List.head?_dropWhile_not (·.isIndentedTrivia)
    (pending.rtakeWhile (!·.isBlank))
  rw [cutLead, ← List.rtakeWhile, Option.mem_def] at isFirst
  rwa [isFirst] at notIndented

/-- No lead begins with indented trivia. -/
theorem begins_of_mem_cut
    {inMember : Bool}
    {pending lines : List Line}
    {member : Member}
    (isMember : member ∈ (cut inMember pending lines).members)
    {line : Line}
    (isFirst : line ∈ member.lead.head?) :
    line.isIndentedTrivia = false := by
  fun_induction cut inMember pending lines with
  | case1 =>
      simp at isMember
  | case2 inMember pending head rest isHead above lead leadCut inductionHypothesis =>
      rcases List.mem_cons.mp isMember with rfl | inRest
      · have ofLead := @isIndentedTrivia_of_head?_cutLead pending line
        rw [leadCut] at ofLead
        exact ofLead isFirst
      · exact inductionHypothesis inRest
  | case3 inMember pending head rest notHead nested inductionHypothesis =>
      exact inductionHypothesis isMember
  | case4 inMember pending head rest notHead notNested inductionHypothesis =>
      exact inductionHypothesis isMember

/-- Below an open member no lead has nested lines, and below none only the first has. -/
theorem leadsPlainly_of_mem_cut
    {inMember : Bool}
    {pending lines : List Line}
    (loose : inMember = true → ∀ line ∈ pending, line.isNested = false) :
    ∀ member ∈ if inMember then (cut inMember pending lines).members
      else (cut inMember pending lines).members.tail, member.LeadsPlainly := by
  fun_induction cut inMember pending lines with
  | case1 inMember pending =>
      cases inMember <;> simp
  | case2 inMember pending head rest isHead above lead leadCut inductionHypothesis =>
      have others := inductionHypothesis (by simp)
      cases inMember with
      | false =>
          exact others
      | true =>
          refine List.forall_mem_cons.mpr ⟨fun line isLead => ?_, others⟩
          have ofLead := @mem_cutLead pending line
          rw [leadCut] at ofLead
          exact loose rfl line (ofLead isLead).1
  | case3 inMember pending head rest notHead nested inductionHypothesis =>
      have others := inductionHypothesis (by simp)
      obtain ⟨rfl, _⟩ := Bool.and_eq_true_iff.mp nested
      exact others
  | case4 inMember pending head rest notHead notNested inductionHypothesis =>
      apply inductionHypothesis
      rintro rfl
      have headLoose : head.isNested = false := by
        simpa using notNested
      simpa [or_imp, forall_and, headLoose] using loose rfl

/-- The body of every member but the last ends apart from the member below. -/
theorem closes_cut
    {inMember : Bool}
    {pending lines : List Line}
    (loose : inMember = true → ∀ line ∈ pending, line.isNested = false) :
    (inMember = true → (cut inMember pending lines).members ≠ [] →
        ClosesBelow (cut inMember pending lines).prelude) ∧
      (cut inMember pending lines).members.Pairwise fun member _ => ClosesBelow member.body := by
  fun_induction cut inMember pending lines with
  | case1 =>
      exact ⟨fun _ someMember => absurd rfl someMember, .nil⟩
  | case2 inMember pending head rest isHead above lead leadCut inductionHypothesis =>
      obtain ⟨bodyCloses, othersClose⟩ := inductionHypothesis (by simp)
      refine ⟨?_, List.pairwise_cons.mpr ⟨fun other isOther => ?_, othersClose⟩⟩
      · rintro rfl _
        have apart := endsClear_cutLead pending
        have parts := cutLead_append pending
        rw [leadCut] at apart parts
        have aboveLoose : ∀ line ∈ above, (!line.isNested) = true := by
          intro line isAbove
          rw [loose rfl line (parts ▸ List.mem_append_left _ isAbove)]
          rfl
        simpa [push, start, ClosesBelow, List.rtakeWhile_eq_self_iff.mpr aboveLoose] using apart
      · exact bodyCloses rfl (List.ne_nil_of_mem isOther)
  | case3 inMember pending head rest notHead nested inductionHypothesis =>
      obtain ⟨preludeCloses, othersClose⟩ := inductionHypothesis (by simp)
      refine ⟨fun _ someMember => ?_, othersClose⟩
      have isNested : (!head.isNested) = false := by
        rw [(Bool.and_eq_true_iff.mp nested).2]
        rfl
      rw [push, ← List.append_cons, ClosesBelow, rtakeWhile_below_neg isNested]
      exact preludeCloses rfl someMember
  | case4 inMember pending head rest notHead notNested inductionHypothesis =>
      apply inductionHypothesis
      rintro rfl
      have headLoose : head.isNested = false := by
        simpa using notNested
      simpa [or_imp, forall_and, headLoose] using loose rfl

/-- Cutting leaves a split that is found again. -/
theorem tight_cut
    {inMember : Bool}
    {pending lines : List Line}
    (notHead : ∀ line ∈ pending, line.isHead = false)
    (loose : inMember = true → ∀ line ∈ pending, line.isNested = false) :
    Tight inMember (cut inMember pending lines) where
  cut member isMember :=
    ⟨(cut_headed notHead).2 member isMember,
      fun _ isFirst => begins_of_mem_cut isMember isFirst⟩
  leads := leadsPlainly_of_mem_cut loose
  closes := (closes_cut loose).2

end MemberSplit

end ScriptUplift
