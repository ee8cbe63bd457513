import Mathlib.Data.List.Infix
import Mathlib.Tactic.Common
import ScriptUplift.Proofs.AnnotationBinding
import ScriptUplift.Proofs.DeclaringLines
import ScriptUplift.Proofs.Locals

namespace ScriptUplift

/-!
# Runs that are commented out stay in one piece

The lines of a run that is commented out are comments and blank lines at the
margin.  Splitting a file parts such lines in one place only: what stands below
the last blank line above a member leads the member.  Member order moves parts
as they are.  A run is therefore found again in one piece, or in two pieces if
a member directly below it takes what stands below its last blank line.
-/

/-- Comments at the margin and blank lines. -/
structure Loose
    (run : List Line) :
    Prop where
  apart : ∀ line ∈ run, line.isHead = false ∧ line.isNested = false
  margin : ∀ line ∈ run, line.isBlank = false → line.isIndentedTrivia = false

/-- How a stretch is found in a split: in one part, or its last lines lead a member. -/
inductive KeptTogether
    (split : MemberSplit)
    (run : List Line) :
    Prop
  | whole (holds : split.Holds run)
  | parted
      {above below : List Line}
      {blank : Line}
      {member : Member}
      (shape : run = above ++ blank :: below)
      (isBlank : blank.isBlank = true)
      (text : ∀ line ∈ below, line.isBlank = false)
      (holds : split.Holds (above ++ [blank]))
      (isMember : member ∈ split.members)
      (leads : below <+: member.lead)

namespace KeptTogether

variable
  {split : MemberSplit}
  {run : List Line}

theorem push
    (kept : KeptTogether split run)
    (above : List Line) :
    KeptTogether (MemberSplit.push above split) run := by
  cases kept with
  | whole holds =>
      exact .whole (holds.push above)
  | parted shape isBlank text holds isMember leads =>
      exact .parted shape isBlank text (holds.push above) isMember leads

theorem start
    (kept : KeptTogether split run)
    (lead : List Line)
    (head : Line) :
    KeptTogether (MemberSplit.start lead head split) run := by
  cases kept with
  | whole holds =>
      exact .whole (holds.start lead head)
  | parted shape isBlank text holds isMember leads =>
      exact .parted shape isBlank text (holds.start lead head)
        (List.mem_cons_of_mem _ isMember) leads

end KeptTogether

/-- A stretch without a line lies above the line or below it. -/
theorem infix_above_or_below
    {run above below : List Line}
    {line : Line}
    (without : line ∉ run)
    (occurs : run <:+: above ++ line :: below) :
    run <:+: above ∨ run <:+: below := by
  rcases List.infix_append_iff.mp occurs with inside | after | ⟨early, late, rfl, suffix, prior⟩
  · exact .inl inside
  · rcases List.infix_cons_iff.mp after with prior | inRest
    · rcases List.prefix_cons_iff.mp prior with rfl | ⟨rest, rfl, _⟩
      · exact .inr (List.nil_infix)
      · exact absurd List.mem_cons_self without
    · exact .inr inRest
  · rcases List.prefix_cons_iff.mp prior with rfl | ⟨rest, rfl, _⟩
    · rw [List.append_nil]
      exact .inl suffix.isInfix
    · exact absurd (List.mem_append_right _ List.mem_cons_self) without

namespace Loose

/-- What stands above a member is cut below the last blank line of a stretch, if in it at all. -/
theorem cutLead
    {run : List Line}
    (loose : Loose run)
    {pending : List Line}
    (occurs : run <:+: pending)
    (head : Line)
    (rest : MemberSplit) :
    KeptTogether
      (MemberSplit.push (MemberSplit.cutLead pending).1
        (MemberSplit.start (MemberSplit.cutLead pending).2 head rest)) run := by
  obtain ⟨above, comments, ends, indented, shape⟩ := MemberSplit.cutLead_parts pending
  have leadText : ∀ line ∈ (MemberSplit.cutLead pending).2, line.isBlank = false :=
    fun line isLead => (MemberSplit.mem_cutLead isLead).2
  rw [← MemberSplit.cutLead_append pending] at occurs
  generalize (MemberSplit.cutLead pending).1 = higher at occurs shape ⊢
  generalize (MemberSplit.cutLead pending).2 = lead at occurs leadText ⊢
  rcases List.infix_append_iff.mp occurs with inside | after | ⟨early, late, rfl, suffix, prior⟩
  · exact .whole (MemberSplit.holds_push_of_above inside)
  · exact .whole ((MemberSplit.holds_start_of_lead
      (after.trans (List.prefix_append _ _).isInfix)).push _)
  · rcases List.eq_nil_or_concat' early with rfl | ⟨most, last, rfl⟩
    · exact .whole ((MemberSplit.holds_start_of_lead
        (prior.isInfix.trans (List.prefix_append _ _).isInfix)).push _)
    · -- The last line above the lead ends what is above, or is one of the indented comments.
      have isBlank : last.isBlank = true := by
        by_contra text
        have notIndented := loose.margin last (by simp) (by simpa using text)
        obtain ⟨front, whole⟩ := suffix
        rw [shape, ← List.append_assoc] at whole
        rcases List.eq_nil_or_concat' comments with rfl | ⟨others, comment, rfl⟩
        · rw [List.append_nil] at whole
          rcases ends with rfl | ⟨earlier, blank, rfl, isBlank⟩
          · simp at whole
          · rw [List.append_singleton_inj] at whole
            exact text (whole.2 ▸ isBlank)
        · rw [← List.append_assoc, List.append_singleton_inj] at whole
          have isIndented := indented comment (by simp)
          rw [← whole.2, notIndented] at isIndented
          cases isIndented
      have lateText : ∀ line ∈ late, line.isBlank = false :=
        fun line isLate => leadText line (prior.subset isLate)
      exact .parted (by simp) isBlank lateText (MemberSplit.holds_push_of_above suffix.isInfix)
        List.mem_cons_self prior

theorem not_mem
    {run : List Line}
    (loose : Loose run)
    {line : Line}
    (stops : line.isHead = true ∨ line.isNested = true) :
    line ∉ run := by
  intro among
  obtain ⟨notHead, notNested⟩ := loose.apart line among
  simp [notHead, notNested] at stops

/-- Splitting keeps a loose stretch together. -/
theorem cut
    {run : List Line}
    (loose : Loose run)
    {inMember : Bool}
    {pending lines : List Line}
    (occurs : run <:+: pending ++ lines) :
    KeptTogether (MemberSplit.cut inMember pending lines) run := by
  fun_induction MemberSplit.cut inMember pending lines with
  | case1 inMember pending =>
      exact .whole ⟨pending, List.mem_cons_self, by simpa using occurs⟩
  | case2 inMember pending line rest isHead above lead leadCut inductionHypothesis =>
      rcases infix_above_or_below (loose.not_mem (.inl isHead)) occurs with isPending | inRest
      · have kept := loose.cutLead isPending line (MemberSplit.cut true [] rest)
        rw [leadCut] at kept
        exact kept
      · exact ((inductionHypothesis (by simpa using inRest)).start lead line).push above
  | case3 inMember pending line rest notHead nested inductionHypothesis =>
      have isNested : line.isNested = true := by
        simp only [Bool.and_eq_true] at nested
        exact nested.2
      rcases infix_above_or_below (loose.not_mem (.inr isNested)) occurs with isPending | inRest
      · exact .whole (MemberSplit.holds_push_of_above
          (isPending.trans (List.prefix_append _ _).isInfix))
      · exact (inductionHypothesis (by simpa using inRest)).push _
  | case4 inMember pending line rest notHead notNested inductionHypothesis =>
      exact inductionHypothesis (by simpa using occurs)

end Loose

/-! ## What commenting out leaves -/

/-- Reading keeps numbers and texts. -/
theorem entries_readLines
    (carry : Carry)
    (context : Context)
    (lines : List Line) :
    (readLines carry context lines).map Line.entry = lines.map Line.entry := by
  induction lines generalizing carry context with
  | nil =>
      rfl
  | cons line rest inductionHypothesis =>
      rw [readLines_cons, List.map_cons, inductionHypothesis]
      rfl

/-- A text at the margin has depth zero. -/
theorem IndentUnit.depth_of_no_indentation
    (unit : IndentUnit)
    {text : Text}
    (visible : text.isBlank = false)
    (atMargin : text.indentation = []) :
    unit.depth text = 0 := by
  have unmoved : unit.reindent text 0 = text := by
    have parts := text.indentation_append_dropIndentation
    rw [atMargin, List.nil_append] at parts
    rw [reindent, parts]
    simp [lead]
  have depth := unit.depth_reindent (Text.all_isIndentChar_of_not_isBlank visible) 0
  rwa [unmoved] at depth

/-- Lines without code, none of them indented, are comments at the margin and blank lines. -/
theorem loose_readLines
    {hidden : List Line}
    (noCode : ∀ line ∈ hidden, line.text.hasNoCode = true)
    (atMargin : ∀ line ∈ hidden, line.text.isBlank = false → line.text.indentation = [])
    (context : Context) :
    Loose (readLines .neutral context hidden) := by
  induction hidden generalizing context with
  | nil =>
      exact ⟨fun _ isLine => absurd isLine List.not_mem_nil,
        fun _ isLine => absurd isLine List.not_mem_nil⟩
  | cons line rest inductionHypothesis =>
      rw [List.forall_mem_cons] at noCode atMargin
      rw [readLines_cons_of_hasNoCode noCode.1]
      obtain ⟨apart, margin⟩ := inductionHypothesis noCode.2 atMargin.2 context
      have trivia := isTrivia_classify_of_hasNoCode context noCode.1
      refine ⟨List.forall_mem_cons.mpr ⟨?_, apart⟩, List.forall_mem_cons.mpr ⟨?_, margin⟩⟩
      · simp [Line.isHead, Line.isNested, Line.readIn, trivia, Carry.isNeutral, Carry.neutral]
      · intro visible
        have hasText : line.text.isBlank = false := by
          simpa [Line.isBlank, Line.readIn, Carry.isNeutral, Carry.neutral] using visible
        have noDepth := context.unit.depth_of_no_indentation hasText (atMargin.1 hasText)
        simp [Line.isIndentedTrivia, Line.readIn, noDepth]

namespace Segment.LeftAs

/-- Of a stretch that is not wrapped the lines alone are left. -/
theorem leavesTexts
    {base : Text}
    {unit : IndentUnit}
    {segment : Segment}
    {piece : List Line}
    (left : segment.LeftAs base unit piece)
    (noSafe : segment.isSafe = false) :
    segment.LeavesTexts unit piece := by
  cases left with
  | alone _ texts =>
      exact texts
  | wrapped safe =>
      exact absurd (noSafe.symm.trans safe) Bool.false_ne_true

end Segment.LeftAs

namespace Orphan

/-- A line that is commented out is not indented. -/
theorem indentation_suppressLine
    {tracked : Tracked}
    (visible : (suppressLine tracked).line.text.isBlank = false) :
    (suppressLine tracked).line.text.indentation = [] := by
  unfold suppressLine at visible ⊢
  split at visible
  · rename_i blank
    exact absurd (visible.symm.trans blank) Bool.false_ne_true
  · rename_i text
    rw [if_neg text]
    rfl

/-- The lines of a run that is commented out. -/
def hiddenLines
    (run : List Tracked) :
    List Line :=
  run.map fun tracked => (suppressLine tracked).line

theorem hasNoCode_of_mem_hiddenLines
    {run : List Tracked}
    {line : Line}
    (isHidden : line ∈ hiddenLines run) :
    line.text.hasNoCode = true := by
  obtain ⟨member, _, rfl⟩ := List.mem_map.mp isHidden
  exact hasNoCode_suppressLine member

theorem loose_hiddenLines
    (run : List Tracked)
    (context : Context) :
    Loose (readLines .neutral context (hiddenLines run)) := by
  refine loose_readLines (fun _ isHidden => hasNoCode_of_mem_hiddenLines isHidden) ?_ context
  intro line isHidden visible
  obtain ⟨member, _, rfl⟩ := List.mem_map.mp isHidden
  exact indentation_suppressLine visible

theorem through_hiddenLines
    (run : List Tracked) :
    Carry.neutral.through ((hiddenLines run).map (·.text)) = .neutral :=
  through_of_hasNoCode
    (List.forall_mem_map.mpr fun _ isHidden => hasNoCode_of_mem_hiddenLines isHidden)

theorem leavesTexts_hiddenLines
    {run : List Tracked}
    (risky : isSafeRun run = false)
    (unit : IndentUnit) :
    (Segment.run run).LeavesTexts unit (hiddenLines run) := by
  have decided : DecidedAs [] (.run run) (.suppress run) := .suppress risky
  have left := (decided.leftAs unit).leavesTexts risky
  rwa [Verdict.lines, List.map_map] at left

end Orphan

namespace Source

/-- A run that is commented out stands where it stood, as comments and blank lines. -/
theorem Consistent.exists_commentedOut
    {source : Source}
    (consistent : source.Consistent)
    {wrapperName : String}
    (named : isIdentifier (Orphan.baseName wrapperName) = true)
    {segment : Segment}
    (isSegment : segment ∈ Orphan.segmentsOf source.lines)
    (risky : segment.isRisky = true) :
    ∃ left, left <:+: (source.orphanStage wrapperName).lines ∧ Loose left ∧
      segment.LeavesTexts source.unit left := by
  obtain ⟨verdict, isVerdict, decided⟩ :=
    exists_right_of_forall₂ (Orphan.decidedAs_verdictsOf wrapperName source.lines) isSegment
  cases decided with
  | keep =>
      cases risky
  | wrap safe =>
      simp [Segment.isRisky, safe] at risky
  | @suppress run notSafe =>
      obtain ⟨above, below, verdicts⟩ := List.append_of_mem isVerdict
      let higher := (above.flatMap (·.lines source.unit)).map (·.line)
      let lower := (below.flatMap (·.lines source.unit)).map (·.line)
      have resolved : Orphan.resolvedLines wrapperName source.unit source.lines =
          higher ++ (Orphan.hiddenLines run ++ lower) := by
        simp [Orphan.resolvedLines, verdicts, Orphan.Verdict.lines, Orphan.hiddenLines, higher,
          lower]
      have known : readLines .neutral { unit := source.unit } source.lines = source.lines :=
        consistent.fresh
      have decides := Orphan.decides_verdictsOf named source.lines
      rw [verdicts] at decides
      have closed : Carry.neutral.through (higher.map (·.text)) = .neutral := by
        rw [List.map_map, List.map_flatMap]
        exact decides.through_above_suppress source.unit known
      have read := (consistent.leftByOrphanStage wrapperName).lines
      rw [resolved] at read
      have parts :=
        readLines_append closed { unit := source.unit } (Orphan.hiddenLines run ++ lower)
      rw [readLines_append (Orphan.through_hiddenLines run)] at parts
      refine ⟨_, ⟨_, _, (List.append_assoc _ _ _).trans (parts.symm.trans read.symm)⟩,
        Orphan.loose_hiddenLines run _, ?_⟩
      rw [Segment.LeavesTexts, entries_readLines]
      exact Orphan.leavesTexts_hiddenLines notSafe source.unit

end Source

/-! ## Runs in the file a migration ends with -/

/--
Numbers and texts that stand in a file directly below each other, blank lines at
their end apart.
-/
def AppearsIn
    (entries : List (Nat × Text))
    (lines : List Line) :
    Prop :=
  ∃ kept blanks, entries = kept ++ blanks ∧ (∀ entry ∈ blanks, entry.2.isBlank = true) ∧
    kept <:+: lines.map Line.entry

/-- What stands in one part of a file is found again behind member order. -/
theorem Source.appearsIn_canonicalStage
    {source : Source}
    {run : List Line}
    (holds : (MemberSplit.ofLines source.lines).Holds run) :
    AppearsIn (run.map Line.entry) source.canonicalStage.1.lines := by
  obtain ⟨blanks, blank, parts⟩ := Canonical.exists_blanks_withoutTrailingBlanks run
  have texts : ∀ entry ∈ blanks.map Line.entry, entry.2.isBlank = true := by
    refine List.forall_mem_map.mpr fun line isLine => ?_
    have isBlank := blank line isLine
    rw [Line.isBlank, Bool.and_eq_true] at isBlank
    exact isBlank.2
  refine ⟨_, _, (congrArg (List.map Line.entry) parts).trans List.map_append, texts, ?_⟩
  by_cases nothing : Canonical.withoutTrailingBlanks run = []
  · rw [nothing]
    exact List.nil_infix
  · obtain ⟨part, isPart, occurs⟩ := holds
    rw [parts] at occurs
    have kept := (List.prefix_append _ _).isInfix.trans occurs
    exact (infix_canonicalStage (Canonical.endsInText_withoutTrailingBlanks nothing)
      ⟨part, isPart, kept⟩).map Line.entry

/--
Entries that appear in lines in one piece, or in two: cut below their last blank
line, where the lower part leads a member.
-/
inductive AppearsTogether
    (members : List Member)
    (entries : List (Nat × Text))
    (lines : List Line) :
    Prop
  | whole (appears : AppearsIn entries lines)
  | parted
      {above below : List (Nat × Text)}
      {blank : Nat × Text}
      {member : Member}
      (shape : entries = above ++ blank :: below)
      (isBlank : blank.2.isBlank = true)
      (text : ∀ entry ∈ below, entry.2.isBlank = false)
      (upper : AppearsIn (above ++ [blank]) lines)
      (lower : AppearsIn below lines)
      (isMember : member ∈ members)
      (leads : below <+: member.lead.map Line.entry)

/-- A loose stretch of a file is found again behind member order in one piece or in two. -/
theorem Source.appearsTogether_canonicalStage
    {source : Source}
    {run : List Line}
    (loose : Loose run)
    (occurs : run <:+: source.lines) :
    AppearsTogether (MemberSplit.ofLines source.lines).members (run.map Line.entry)
      source.canonicalStage.1.lines := by
  have kept : KeptTogether (MemberSplit.ofLines source.lines) run := loose.cut occurs
  cases kept with
  | whole holds =>
      exact .whole (appearsIn_canonicalStage holds)
  | @parted above below blank member shape isBlank text holds isMember leads =>
      have lower : (MemberSplit.ofLines source.lines).Holds below := by
        refine ⟨member.lines, ?_, leads.isInfix.trans (List.prefix_append _ _).isInfix⟩
        exact List.mem_cons_of_mem _ (List.mem_map_of_mem isMember)
      have visible : ∀ entry ∈ below.map Line.entry, entry.2.isBlank = false := by
        refine List.forall_mem_map.mpr fun line isLine => ?_
        have starts : line.continues = false := by
          have notNested := (loose.apart line (by simp [shape, isLine])).2
          rw [Line.isNested, Bool.or_eq_false_iff] at notNested
          exact notNested.1
        have visible := text line isLine
        rw [Line.isBlank, starts, Bool.not_false, Bool.true_and] at visible
        exact visible
      have blankText : blank.entry.2.isBlank = true := by
        rw [Line.isBlank, Bool.and_eq_true] at isBlank
        exact isBlank.2
      have upper := appearsIn_canonicalStage holds
      rw [List.map_append] at upper
      exact .parted (by rw [shape, List.map_append, List.map_cons]) blankText visible upper
        (appearsIn_canonicalStage lower) isMember (leads.map Line.entry)

namespace Pipeline

/-- A run that is commented out is found again behind member order in one piece or in two. -/
theorem appearsTogether_migrated
    {config : Config}
    (canonical : config.canonical = true)
    (named : isIdentifier (Orphan.baseName config.wrapperName) = true)
    (path : String)
    (content : Text)
    {segment : Segment}
    (isSegment : segment ∈ Orphan.segmentsOf (uplifted config path content).indentStage.lines)
    (risky : segment.isRisky = true) :
    AppearsTogether (MemberSplit.ofLines (repaired config path content).lines).members
      (segment.members.map fun member =>
        (member.line.number,
          segment.textLeft (uplifted config path content).indentStage.unit member.line))
      (migrated config path content).lines := by
  have consistent := (uplifted_consistent config path content).indentStage
  obtain ⟨left, occurs, loose, leaves⟩ := consistent.exists_commentedOut named isSegment risky
  have together := Source.appearsTogether_canonicalStage loose occurs
  rw [leaves] at together
  rw [migrated, if_pos canonical, repaired]
  exact together

/--
By default every run that is commented out stands in the migrated file in one
piece, its lines in their order directly below each other, or in two: if a
member directly below it takes what stands below the run's last blank line as
its lead, then that part goes with the member.  Each of its lines is given back
by taking the marker off.
-/
theorem commented_out_runs_stay_in_one_piece_or_two
    (path : String)
    (content : Text) :
    ∃ pipeline,
      ofConfig .default = .ok pipeline ∧
        let before := (uplifted .default path content).indentStage
        let members := (MemberSplit.ofLines (repaired .default path content).lines).members
        let result := (pipeline.run path content).1
        ∀ segment ∈ Orphan.segmentsOf before.lines, segment.isRisky = true →
          AppearsTogether members
              (segment.members.map fun member =>
                (member.line.number, segment.textLeft before.unit member.line))
              result.lines ∧
            ∀ member ∈ segment.members, member.line.text.isBlank = false →
              Marker.recover? (segment.textLeft before.unit member.line) =
                some member.line.text := by
  have accepted : ofConfig .default = .ok ⟨stagesOf .default, countersOf .default⟩ := rfl
  refine ⟨_, accepted, ?_⟩
  intro before members result segment isSegment risky
  refine ⟨?_, fun member _ visible => Source.recover_textLeft risky visible before.unit⟩
  have ran := run_eq_migrated accepted path content
  have named : isIdentifier (Orphan.baseName Config.default.wrapperName) = true := by
    decide
  simp only [result, ran]
  exact appearsTogether_migrated rfl named path content isSegment risky

/-- A run with a blank line in it, above a declaration. -/
def runAboveDeclaration : Text :=
  "func a():\n\tpass\nfoo()\n\nbar()\nvar x = 1\n".toList

/-- The last statement of the run goes with the declaration, above the rest of the run. -/
theorem run_is_parted_by_member_below :
    let before := (uplifted .default "a.gd" runAboveDeclaration).indentStage
    let result := (run ⟨stagesOf .default, countersOf .default⟩ "a.gd" runAboveDeclaration).1
    ∃ segment ∈ Orphan.segmentsOf before.lines, segment.isRisky = true ∧
      ¬ ((segment.members.map fun member =>
            (member.line.number, segment.textLeft before.unit member.line)).filter
          (!·.2.isBlank)).Sublist (result.lines.map Line.entry) := by
  decide +kernel

end Pipeline

end ScriptUplift
