import Mathlib.Data.List.Forall2
import Mathlib.Tactic.Common
import ScriptUplift.Orphan.Repair
import ScriptUplift.Proofs.Indentation
import ScriptUplift.Proofs.Knowledge

namespace ScriptUplift

/-!
# What orphan repair does to a file

Orphan repair cuts a file into runs and the lines outside them and reaches a
verdict about each.  Without a run the file keeps its lines; with one, the lines
are what the verdicts leave, recomputed.  A verdict treats every line on its own:
the line keeps its number, and its code or its code behind one marker; a wrapped
run gets a header in addition.
-/

namespace Orphan

/-- The lines the verdicts about a file leave, before they are recomputed. -/
def resolvedLines
    (wrapperName : String)
    (unit : IndentUnit)
    (lines : List Line) :
    List Line :=
  ((verdictsOf wrapperName lines).flatMap (·.lines unit)).map (·.line)

end Orphan

namespace Source

/-- What orphan repair leaves of a file without a run: the file, with its markers reported. -/
structure KeptByOrphanStage
    (source after : Source) :
    Prop where
  lines : after.lines = source.lines
  unit : after.unit = source.unit
  counters :
    after.report.counters =
      source.report.counters.register [Orphan.wrapCounter, Orphan.suppressCounter]
  suppressed : after.suppressed = rememberNames source.suppressed (source.lines.map seedLine)
  issues :
    after.report.issues =
      source.report.issues ++ seedIssues source.lines ++
        referenceIssues after.suppressed (source.lines.map seedLine)

/--
What orphan repair leaves of a file with a run: the lines of the verdicts,
recomputed, with what was done counted and reported.
-/
structure ResolvedByOrphanStage
    (wrapperName : String)
    (source after : Source) :
    Prop where
  lines :
    after.lines =
      refreshLines source.unit (Orphan.resolvedLines wrapperName source.unit source.lines)
  unit : after.unit = source.unit
  counters :
    after.report.counters =
      ((source.report.counters.register [Orphan.wrapCounter, Orphan.suppressCounter]).add
        Orphan.wrapCounter
          ((Orphan.verdictsOf wrapperName source.lines).countP (·.isWrap))).add
        Orphan.suppressCounter
          (((Orphan.verdictsOf wrapperName source.lines).reverse.flatMap (·.issues)).length)
  suppressed :
    after.suppressed =
      rememberNames (rememberNames source.suppressed (source.lines.map seedLine))
        ((Orphan.verdictsOf wrapperName source.lines).reverse.flatMap (·.declarations))
  issues :
    after.report.issues =
      source.report.issues ++ seedIssues source.lines ++
        (Orphan.verdictsOf wrapperName source.lines).reverse.flatMap (·.issues) ++
        referenceIssues after.suppressed
          (after.track
            ((Orphan.verdictsOf wrapperName source.lines).flatMap (·.lines source.unit)))

theorem orphanStage_of_no_run
    {wrapperName : String}
    {source : Source}
    (noRun : (Orphan.verdictsOf wrapperName source.lines).any (·.isRun) = false) :
    source.KeptByOrphanStage (source.orphanStage wrapperName) := by
  unfold orphanStage
  dsimp only
  rw [if_neg (by simp [noRun])]
  exact ⟨rfl, rfl, rfl, rfl, rfl⟩

theorem orphanStage_of_run
    {wrapperName : String}
    {source : Source}
    (settled : source.unit.isUnsettled = false)
    (run : (Orphan.verdictsOf wrapperName source.lines).any (·.isRun) = true) :
    source.ResolvedByOrphanStage wrapperName (source.orphanStage wrapperName) := by
  unfold orphanStage
  dsimp only
  rw [if_pos run]
  refine ⟨?_, ?_, rfl, rfl, rfl⟩
  · simp [refresh, Orphan.resolve, register, settled, Orphan.resolvedLines, Orphan.verdictsOf,
      Orphan.baseName, Orphan.segmentsOf]
  · simp [refresh, Orphan.resolve, register, settled]

end Source

namespace Marker

/-- A text is another one, moved to the left or right and perhaps commented out behind one marker. -/
def Recoverable
    (original text : Text) :
    Prop :=
  original.SameCode text ∨
    ∃ hidden, text = suppressed ++ hidden ∧ original.SameCode hidden

/-- Code moved before it is commented out is still recoverable. -/
theorem Recoverable.of_sameCode
    {original moved text : Text}
    (same : original.SameCode moved)
    (recoverable : Recoverable moved text) :
    Recoverable original text := by
  rcases recoverable with sameText | ⟨hidden, shape, sameHidden⟩
  · exact .inl (same.trans sameText)
  · exact .inr ⟨hidden, shape, same.trans sameHidden⟩

end Marker

@[simp] theorem Tracked.markOrphan_number
    (tracked : Tracked) :
    tracked.markOrphan.line.number = tracked.line.number := by
  unfold markOrphan
  split <;> rfl

@[simp] theorem Tracked.markOrphan_depth
    (tracked : Tracked) :
    tracked.markOrphan.line.depth = tracked.line.depth := by
  unfold markOrphan
  split <;> rfl

@[simp] theorem Tracked.markOrphan_text
    (tracked : Tracked) :
    tracked.markOrphan.line.text = tracked.line.text := by
  unfold markOrphan
  split <;> rfl

namespace Segment

/-- The stretches of a file hold its lines in order, some of them marked. -/
theorem cut_members
    (taken : Nat)
    (seeds : List Tracked) :
    List.Forall₂ (fun seed member => member = seed ∨ member = seed.markOrphan)
      (seeds.drop taken) ((cut taken seeds).flatMap members) := by
  fun_induction cut taken seeds with
  | case1 taken =>
      simp
  | case2 tracked rest leads reach inductionHypothesis =>
      have marked :
          List.Forall₂ (fun seed member => member = seed ∨ member = seed.markOrphan)
            (tracked :: rest.take reach)
            ((tracked :: rest.take reach).map Tracked.markOrphan) := by
        rw [List.forall₂_map_right_iff, List.forall₂_same]
        exact fun _ _ => .inr rfl
      have joined := List.rel_append marked inductionHypothesis
      simpa [members] using joined
  | case3 tracked rest stays inductionHypothesis =>
      rw [List.flatMap_cons]
      exact .cons (.inl rfl) inductionHypothesis
  | case4 taken tracked rest inductionHypothesis =>
      simpa using inductionHypothesis

end Segment

namespace Orphan

namespace Verdict

/-- The lines a verdict is about. -/
def members : Verdict → List Tracked
  | .keep tracked => [tracked]
  | .wrap _ members => members
  | .suppress members => members

/-- What a verdict does with each of its lines. -/
def treat
    (unit : IndentUnit) : Verdict → Tracked → Tracked
  | .keep _ => id
  | .wrap _ _ => wrapLine unit
  | .suppress _ => suppressLine

/-- The header a verdict adds. -/
def headers
    (unit : IndentUnit) : Verdict → List Tracked
  | .wrap name members =>
      [{ line := wrapperHeader unit (leadDepth members) name }]
  | _ =>
      []

/-- A verdict leaves its header and every line it is about. -/
theorem lines_eq
    (unit : IndentUnit)
    (verdict : Verdict) :
    verdict.lines unit = verdict.headers unit ++ verdict.members.map (verdict.treat unit) := by
  cases verdict <;> rfl

end Verdict

/-- The lines of the verdicts are the lines of the stretches. -/
theorem decideAll_members
    (base : Text)
    (taken : List Text)
    (segments : List Segment) :
    (decideAll base taken segments).flatMap Verdict.members =
      segments.flatMap Segment.members := by
  fun_induction decideAll base taken segments with
  | case1 =>
      rfl
  | case2 taken tracked rest inductionHypothesis =>
      simp [Verdict.members, Segment.members, inductionHypothesis]
  | case3 taken members rest safe name inductionHypothesis =>
      simp [Verdict.members, Segment.members, inductionHypothesis]
  | case4 taken members rest risky inductionHypothesis =>
      simp [Verdict.members, Segment.members, inductionHypothesis]

@[simp] theorem wrapLine_number
    (unit : IndentUnit)
    (tracked : Tracked) :
    (wrapLine unit tracked).line.number = tracked.line.number := by
  unfold wrapLine
  dsimp only
  split <;> rfl

/-- Wrapping keeps the code of a line. -/
theorem wrapLine_sameCode
    (unit : IndentUnit)
    (tracked : Tracked) :
    tracked.line.text.SameCode (wrapLine unit tracked).line.text := by
  unfold wrapLine
  dsimp only
  split
  · exact .refl _
  · exact unit.sameCode_lead_append 1 _

@[simp] theorem suppressLine_number
    (tracked : Tracked) :
    (suppressLine tracked).line.number = tracked.line.number := by
  unfold suppressLine
  split <;> rfl

/-- Suppression puts at most one marker before a line. -/
theorem suppressLine_text
    (tracked : Tracked) :
    (suppressLine tracked).line.text = tracked.line.text ∨
      (suppressLine tracked).line.text = Marker.suppressed ++ tracked.line.text := by
  unfold suppressLine
  split
  · exact .inl rfl
  · exact .inr rfl

namespace Verdict

@[simp] theorem treat_number
    (unit : IndentUnit)
    (verdict : Verdict)
    (tracked : Tracked) :
    (verdict.treat unit tracked).line.number = tracked.line.number := by
  cases verdict with
  | keep kept =>
      rfl
  | wrap name members =>
      exact wrapLine_number unit tracked
  | suppress members =>
      exact suppressLine_number tracked

/-- A verdict keeps the code of every line, perhaps behind one marker. -/
theorem treat_recoverable
    (unit : IndentUnit)
    (verdict : Verdict)
    (tracked : Tracked) :
    Marker.Recoverable tracked.line.text (verdict.treat unit tracked).line.text := by
  cases verdict with
  | keep kept =>
      exact .inl (.refl _)
  | wrap name members =>
      exact .inl (wrapLine_sameCode unit tracked)
  | suppress members =>
      rcases suppressLine_text tracked with same | marked
      · exact .inl (congrArg Text.dropIndentation same.symm)
      · exact .inr ⟨_, marked, .refl _⟩

end Verdict

end Orphan

/-- A recoverable text is blank only if the original is. -/
theorem Marker.Recoverable.isBlank_eq_false
    {original text : Text}
    (recoverable : Recoverable original text)
    (visible : original.isBlank = false) :
    text.isBlank = false := by
  rcases recoverable with same | ⟨hidden, rfl, same⟩
  · rw [← same.isBlank_eq, visible]
  · have marked : Text.isBlank suppressed = false := by
      decide
    rw [Text.isBlank_append, marked, Bool.false_and]

namespace Orphan

/-- A numbered name is the base name and an ending that goes on with it as a word. -/
theorem exists_ending_freshNumberedName
    (base : Text)
    (taken : List Text)
    (number : Nat) :
    ∃ ending : Text, ending.all isIdentifierChar = true ∧
      freshNumberedName base taken number = base ++ ending := by
  fun_induction freshNumberedName base taken number with
  | case1 taken number collision inductionHypothesis =>
      exact inductionHypothesis
  | case2 taken number free =>
      refine ⟨'_' :: (toString number).toList, ?_, rfl⟩
      have digit {character : Char} (isDigit : character.isDigit = true) :
          isIdentifierChar character = true := by
        have asDigit : isDigitChar character = true := by
          simpa [isDigitChar, Char.isDigit, Char.le_def] using isDigit
        rw [isIdentifierChar, asDigit, Bool.or_true]
      rw [List.all_cons, Bool.and_eq_true, List.all_eq_true]
      refine ⟨by decide, fun character member => digit ?_⟩
      have shown : (toString number).toList = Nat.toDigits 10 number := by
        simp [Nat.toList_repr]
      rw [shown] at member
      exact Nat.isDigit_of_mem_toDigits (by decide) (by decide) member

/-- The line is the header of a wrapper method for the given base name. -/
def IsWrapperHeader
    (base : Text)
    (unit : IndentUnit)
    (line : Line) :
    Prop :=
  line.number = 0 ∧
    ∃ (depth : Nat) (name : Text),
      base <+: name ∧ line.text = unit.lead depth ++ "func ".toList ++ name ++ "():".toList

theorem IsWrapperHeader.isBlank_eq_false
    {base : Text}
    {unit : IndentUnit}
    {line : Line}
    (header : IsWrapperHeader base unit line) :
    line.text.isBlank = false := by
  obtain ⟨_, depth, name, _, shape⟩ := header
  have brackets : Text.isBlank "():".toList = false := by
    decide
  rw [shape, Text.isBlank_append, brackets, Bool.and_false]

/-- Wrapped runs are named by the base name and an ending that goes on with it as a word. -/
theorem exists_ending_of_wrap
    {base : Text}
    {taken : List Text}
    {segments : List Segment}
    {name : Text}
    {members : List Tracked}
    (decided : .wrap name members ∈ decideAll base taken segments) :
    ∃ ending : Text, ending.all isIdentifierChar = true ∧ name = base ++ ending := by
  fun_induction decideAll base taken segments with
  | case1 =>
      simp at decided
  | case2 taken tracked rest inductionHypothesis =>
      rcases List.mem_cons.mp decided with isFirst | inRest
      · cases isFirst
      · exact inductionHypothesis inRest
  | case3 taken run rest safe fresh inductionHypothesis =>
      rcases List.mem_cons.mp decided with isFirst | inRest
      · rw [(Verdict.wrap.inj isFirst).1]
        unfold fresh freshName
        split
        · exact exists_ending_freshNumberedName base taken 2
        · exact ⟨[], rfl, (List.append_nil _).symm⟩
      · exact inductionHypothesis inRest
  | case4 taken run rest risky inductionHypothesis =>
      rcases List.mem_cons.mp decided with isFirst | inRest
      · cases isFirst
      · exact inductionHypothesis inRest

/-- The verdicts about a file are about its lines, in order, with their numbers and texts. -/
theorem verdictsOf_members
    (wrapperName : String)
    (lines : List Line) :
    List.Forall₂
      (fun line member => member.line.number = line.number ∧ member.line.text = line.text)
      lines ((verdictsOf wrapperName lines).flatMap Verdict.members) := by
  unfold verdictsOf segmentsOf
  rw [decideAll_members]
  have stretches := Segment.cut_members 0 (lines.map seedLine)
  rw [List.drop_zero, List.forall₂_map_left_iff] at stretches
  refine stretches.imp ?_
  rintro line member (rfl | rfl)
  · exact ⟨rfl, rfl⟩
  · exact ⟨Tracked.markOrphan_number _, Tracked.markOrphan_text _⟩

/-- A line that the verdicts leave is the header of a wrapped run or one of the lines. -/
theorem exists_wrap_of_mem_resolvedLines
    {wrapperName : String}
    {unit : IndentUnit}
    {lines : List Line}
    {out : Line}
    (member : out ∈ resolvedLines wrapperName unit lines) :
    (∃ depth name, (∃ members, .wrap name members ∈ verdictsOf wrapperName lines) ∧
        out = wrapperHeader unit depth name) ∨
      ∃ line ∈ lines, out.number = line.number ∧ Marker.Recoverable line.text out.text := by
  obtain ⟨tracked, among, rfl⟩ := List.mem_map.mp member
  obtain ⟨verdict, decided, left⟩ := List.mem_flatMap.mp among
  rw [Verdict.lines_eq] at left
  rcases List.mem_append.mp left with isHeader | isTreated
  · cases verdict with
    | keep kept =>
        simp [Verdict.headers] at isHeader
    | suppress members =>
        simp [Verdict.headers] at isHeader
    | wrap name members =>
        rw [Verdict.headers, List.mem_singleton] at isHeader
        rw [isHeader]
        exact .inl ⟨_, name, ⟨members, decided⟩, rfl⟩
  · obtain ⟨treated, isMember, rfl⟩ := List.mem_map.mp isTreated
    have inAll : treated ∈ (verdictsOf wrapperName lines).flatMap Verdict.members :=
      List.mem_flatMap.mpr ⟨verdict, decided, isMember⟩
    obtain ⟨line, isLine, sameNumber, sameText⟩ :=
      exists_left_of_forall₂ (verdictsOf_members wrapperName lines) inAll
    refine .inr ⟨line, isLine, ?_, ?_⟩
    · rw [Verdict.treat_number, sameNumber]
    · rw [← sameText]
      exact verdict.treat_recoverable unit treated

/-- What the verdicts leave is a wrapper header or one of the lines, recoverable. -/
theorem mem_resolvedLines
    {wrapperName : String}
    {unit : IndentUnit}
    {lines : List Line}
    {out : Line}
    (member : out ∈ resolvedLines wrapperName unit lines) :
    IsWrapperHeader (baseName wrapperName) unit out ∨
      ∃ line ∈ lines,
        out.number = line.number ∧ Marker.Recoverable line.text out.text := by
  rcases exists_wrap_of_mem_resolvedLines member with ⟨depth, name, ⟨members, decided⟩, rfl⟩ | kept
  · obtain ⟨ending, _, rfl⟩ := exists_ending_of_wrap decided
    exact .inl ⟨rfl, depth, _, List.prefix_append _ ending, rfl⟩
  · exact .inr kept

/-- Every line is left by the verdicts, recoverable. -/
theorem exists_mem_resolvedLines
    (wrapperName : String)
    (unit : IndentUnit)
    {lines : List Line}
    {line : Line}
    (isLine : line ∈ lines) :
    ∃ out ∈ resolvedLines wrapperName unit lines,
      out.number = line.number ∧ Marker.Recoverable line.text out.text := by
  obtain ⟨tracked, inAll, sameNumber, sameText⟩ :=
    exists_right_of_forall₂ (verdictsOf_members wrapperName lines) isLine
  obtain ⟨verdict, decided, isMember⟩ := List.mem_flatMap.mp inAll
  refine ⟨(verdict.treat unit tracked).line, ?_, ?_, ?_⟩
  · refine List.mem_map.mpr ⟨_, List.mem_flatMap.mpr ⟨verdict, decided, ?_⟩, rfl⟩
    rw [Verdict.lines_eq]
    exact List.mem_append_right _ (List.mem_map_of_mem isMember)
  · rw [Verdict.treat_number, sameNumber]
  · rw [← sameText]
    exact verdict.treat_recoverable unit tracked

/-- The numbers a verdict leaves: those of its lines, after a zero for the header. -/
theorem Verdict.lines_numbers
    (unit : IndentUnit)
    (verdict : Verdict) :
    (verdict.lines unit).map (·.line.number) =
      (if verdict.isWrap then [0] else []) ++ verdict.members.map (·.line.number) := by
  rw [lines_eq, List.map_append, List.map_map]
  congr 1
  · cases verdict <;> rfl
  · apply List.map_congr_left
    intro tracked _
    exact treat_number unit verdict tracked

/-- Among lines with numbers of their own, the verdicts add nothing but zeros, one for each header. -/
theorem numbers_of_verdicts
    (unit : IndentUnit)
    {verdicts : List Verdict}
    (numbered : ∀ member ∈ verdicts.flatMap Verdict.members, member.line.number ≠ 0) :
    ((verdicts.flatMap (·.lines unit)).map (·.line.number)).filter (· ≠ 0) =
        (verdicts.flatMap Verdict.members).map (·.line.number) ∧
      ((verdicts.flatMap (·.lines unit)).map (·.line.number)).count 0 =
        verdicts.countP (·.isWrap) := by
  induction verdicts with
  | nil =>
      exact ⟨rfl, rfl⟩
  | cons verdict rest inductionHypothesis =>
      rw [List.flatMap_cons] at numbered
      obtain ⟨restNumbers, restZeros⟩ := inductionHypothesis
        fun member inRest => numbered member (List.mem_append_right _ inRest)
      have own : ∀ number ∈ verdict.members.map (·.line.number), number ≠ 0 := by
        intro number isNumber
        obtain ⟨member, isMember, rfl⟩ := List.mem_map.mp isNumber
        exact numbered member (List.mem_append_left _ isMember)
      have ownKept :
          (verdict.members.map (·.line.number)).filter (· ≠ 0) =
            verdict.members.map (·.line.number) :=
        List.filter_eq_self.mpr fun number isNumber => decide_eq_true (own number isNumber)
      have ownZeros : (verdict.members.map (·.line.number)).count 0 = 0 :=
        List.count_eq_zero.mpr fun isNumber => own 0 isNumber rfl
      simp only [List.flatMap_cons, List.map_append, List.filter_append, List.count_append,
        List.countP_cons, Verdict.lines_numbers, restNumbers, restZeros, ownKept, ownZeros]
      cases verdict.isWrap with
      | false =>
          exact ⟨rfl, by simp⟩
      | true =>
          exact ⟨rfl, by simp [Nat.add_comm]⟩

/-- Orphan repair adds nothing but headers, and keeps the numbers of the lines in order. -/
theorem numbers_resolvedLines
    (wrapperName : String)
    (unit : IndentUnit)
    {lines : List Line}
    (numbered : ∀ line ∈ lines, line.number ≠ 0) :
    ((resolvedLines wrapperName unit lines).map (·.number)).filter (· ≠ 0) =
        lines.map (·.number) ∧
      ((resolvedLines wrapperName unit lines).map (·.number)).count 0 =
        (verdictsOf wrapperName lines).countP (·.isWrap) := by
  have same := verdictsOf_members wrapperName lines
  have sameNumbers :
      ((verdictsOf wrapperName lines).flatMap Verdict.members).map (·.line.number) =
        lines.map (·.number) :=
    map_eq_of_forall₂ (same.imp fun _ _ holds => holds.1)
  have membersNumbered :
      ∀ member ∈ (verdictsOf wrapperName lines).flatMap Verdict.members,
        member.line.number ≠ 0 := by
    intro member isMember
    obtain ⟨line, isLine, sameNumber, _⟩ := exists_left_of_forall₂ same isMember
    rw [sameNumber]
    exact numbered line isLine
  obtain ⟨kept, zeros⟩ := numbers_of_verdicts unit membersNumbered
  unfold resolvedLines
  rw [List.map_map]
  exact ⟨kept.trans sameNumbers, zeros⟩

end Orphan

namespace Segment

/-- A file has a run exactly when some line leads into one. -/
theorem any_isRun_cut
    (seeds : List Tracked) :
    (cut 0 seeds).any (·.isRun) = seeds.any (·.line.leadsIn) := by
  induction seeds with
  | nil =>
      rfl
  | cons tracked rest inductionHypothesis =>
      cases leads : tracked.line.leadsIn with
      | false =>
          simp only [cut, leads, Bool.false_eq_true, if_false, List.any_cons, inductionHypothesis]
          rfl
      | true =>
          simp [cut, leads, isRun]

/-- A run begins with a line that leads into it. -/
theorem exists_lead_of_mem_cut
    {taken : Nat}
    {seeds members : List Tracked}
    (isRun : .run members ∈ cut taken seeds) :
    ∃ lead ∈ seeds, lead.line.leadsIn = true ∧ members.head? = some lead.markOrphan := by
  fun_induction cut taken seeds with
  | case1 =>
      simp at isRun
  | case2 tracked rest leads reach inductionHypothesis =>
      rcases List.mem_cons.mp isRun with isFirst | inRest
      · rw [Segment.run.inj isFirst]
        exact ⟨tracked, List.mem_cons_self, leads, rfl⟩
      · obtain ⟨lead, isSeed, leadsIn, marked⟩ := inductionHypothesis inRest
        exact ⟨lead, List.mem_cons_of_mem _ isSeed, leadsIn, marked⟩
  | case3 tracked rest stays inductionHypothesis =>
      rcases List.mem_cons.mp isRun with isFirst | inRest
      · cases isFirst
      · obtain ⟨lead, isSeed, leadsIn, marked⟩ := inductionHypothesis inRest
        exact ⟨lead, List.mem_cons_of_mem _ isSeed, leadsIn, marked⟩
  | case4 taken tracked rest inductionHypothesis =>
      obtain ⟨lead, isSeed, leadsIn, marked⟩ := inductionHypothesis isRun
      exact ⟨lead, List.mem_cons_of_mem _ isSeed, leadsIn, marked⟩

end Segment

namespace Orphan

theorem any_isRun_decideAll
    (base : Text)
    (taken : List Text)
    (segments : List Segment) :
    (decideAll base taken segments).any (·.isRun) = segments.any (·.isRun) := by
  fun_induction decideAll base taken segments with
  | case1 =>
      rfl
  | case2 taken tracked rest inductionHypothesis =>
      simpa [Verdict.isRun, Segment.isRun] using inductionHypothesis
  | case3 taken members rest safe name inductionHypothesis =>
      simp [Verdict.isRun, Segment.isRun]
  | case4 taken members rest risky inductionHypothesis =>
      simp [Verdict.isRun, Segment.isRun]

/-- What is wrapped or commented out is a run. -/
theorem run_mem_of_isRun
    {base : Text}
    {taken : List Text}
    {segments : List Segment}
    {verdict : Verdict}
    (decided : verdict ∈ decideAll base taken segments)
    (isRun : verdict.isRun = true) :
    .run verdict.members ∈ segments := by
  fun_induction decideAll base taken segments with
  | case1 =>
      simp at decided
  | case2 taken tracked rest inductionHypothesis =>
      rcases List.mem_cons.mp decided with rfl | inRest
      · cases isRun
      · exact List.mem_cons_of_mem _ (inductionHypothesis inRest)
  | case3 taken run rest safe name inductionHypothesis =>
      rcases List.mem_cons.mp decided with rfl | inRest
      · exact List.mem_cons_self
      · exact List.mem_cons_of_mem _ (inductionHypothesis inRest)
  | case4 taken run rest risky inductionHypothesis =>
      rcases List.mem_cons.mp decided with rfl | inRest
      · exact List.mem_cons_self
      · exact List.mem_cons_of_mem _ (inductionHypothesis inRest)

end Orphan

theorem Line.isStatement_of_leadsIn
    {line : Line}
    (leads : line.leadsIn = true) :
    line.isStatement = true := by
  unfold leadsIn at leads
  unfold isStatement
  cases category : line.category <;> simp_all [Category.isTrivia]

/-- A statement of a recomputed file that leads into a run is one of its orphans. -/
theorem Orphan.isOrphanStatement_of_leadsIn
    {unit : IndentUnit}
    {lines : List Line}
    {lead : Tracked}
    (member : lead.line ∈ refreshLines unit lines)
    (leads : lead.line.leadsIn = true) :
    isOrphanStatement lead.markOrphan = true := by
  have statement := Line.isStatement_of_leadsIn leads
  have visible := isBlank_eq_false_of_isStatement member statement
  unfold isOrphanStatement Tracked.markOrphan
  rw [if_pos statement]
  simp [visible]

namespace Orphan

/-- There is a verdict about a run of a file exactly when some line leads into one. -/
theorem any_isRun_verdictsOf
    (wrapperName : String)
    (lines : List Line) :
    (verdictsOf wrapperName lines).any (·.isRun) = lines.any (·.leadsIn) := by
  unfold verdictsOf segmentsOf
  rw [any_isRun_decideAll, Segment.any_isRun_cut, List.any_map]
  rfl

/-- What is commented out of recomputed lines has an orphan in it. -/
theorem exists_orphan_of_suppress
    {wrapperName : String}
    {unit : IndentUnit}
    {lines : List Line}
    {members : List Tracked}
    (fresh : refreshLines unit lines = lines)
    (decided : .suppress members ∈ verdictsOf wrapperName lines) :
    ∃ orphan ∈ members, isOrphanStatement orphan = true := by
  obtain ⟨lead, isSeed, leads, marked⟩ :=
    Segment.exists_lead_of_mem_cut (run_mem_of_isRun decided rfl)
  obtain ⟨line, isLine, rfl⟩ := List.mem_map.mp isSeed
  rw [← fresh] at isLine
  exact ⟨_, List.mem_of_head? marked, isOrphanStatement_of_leadsIn isLine leads⟩

/-- A verdict about a run of recomputed lines wraps it or has an issue with it. -/
theorem pos_of_run
    {wrapperName : String}
    {unit : IndentUnit}
    {lines : List Line}
    (fresh : refreshLines unit lines = lines)
    (runs : (verdictsOf wrapperName lines).any (·.isRun) = true) :
    0 < (verdictsOf wrapperName lines).countP (·.isWrap) ∨
      0 < ((verdictsOf wrapperName lines).reverse.flatMap (·.issues)).length := by
  obtain ⟨verdict, decided, isRun⟩ := List.any_eq_true.mp runs
  cases verdict with
  | keep tracked =>
      cases isRun
  | wrap name members =>
      exact .inl (List.countP_pos_iff.mpr ⟨_, decided, rfl⟩)
  | suppress members =>
      obtain ⟨lead, member, orphan⟩ := exists_orphan_of_suppress fresh decided
      have reported :
          suppressIssue lead ∈ (verdictsOf wrapperName lines).reverse.flatMap (·.issues) := by
        refine List.mem_flatMap.mpr ⟨_, List.mem_reverse.mpr decided, ?_⟩
        exact List.mem_map_of_mem (List.mem_filter.mpr ⟨member, orphan⟩)
      exact .inr (List.length_pos_of_mem reported)

end Orphan

end ScriptUplift
