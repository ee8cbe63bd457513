import Mathlib.Tactic.Common
import ScriptUplift.Proofs.ResolvedRuns

namespace ScriptUplift

/-!
# What is commented out reads as comments

The verdicts about a file are followed together with what is open between two
lines.  Nothing is open above a run, and nothing but the end of the file stands
below an open bracket in it, so that every verdict finds open what was open
there before.  Hence the lines that are commented out, and the markers that were
there already, are comments in the file that orphan repair leaves.
-/

namespace Orphan

/-- The texts a verdict leaves. -/
def Verdict.texts
    (unit : IndentUnit)
    (verdict : Verdict) :
    List Text :=
  (verdict.lines unit).map (·.line.text)

/-- Above a line that starts a statement nothing is open. -/
theorem eq_neutral_of_starts
    {carry : Carry}
    {context : Context}
    {line : Line}
    {rest : List Line}
    (known : readLines carry context (line :: rest) = line :: rest)
    (starts : line.continues = false) :
    carry = .neutral := by
  rw [readLines_cons, List.cons.injEq] at known
  have continues : (!carry.isNeutral) = line.continues := by
    rw [← known.1]
    rfl
  rw [starts, Bool.not_eq_false'] at continues
  exact (Carry.isNeutral_iff carry).mp continues

/-- Nothing is open where a run begins. -/
theorem eq_neutral_of_isRun
    {carry : Carry}
    {context : Context}
    {lead : Line}
    {members below : List Line}
    (isRun : IsRun lead members below)
    (known : readLines carry context (lead :: members ++ below) = lead :: members ++ below) :
    carry = .neutral :=
  eq_neutral_of_starts known
    (Line.continues_of_isStatement (Line.isStatement_of_leadsIn isRun.leads))

theorem through_of_hasNoCode
    {texts : List Text}
    (noCode : ∀ text ∈ texts, text.hasNoCode = true) :
    Carry.neutral.through texts = .neutral := by
  induction texts with
  | nil =>
      rfl
  | cons text rest inductionHypothesis =>
      obtain ⟨own, others⟩ := List.forall_mem_cons.mp noCode
      rw [Carry.through]
      have closed := (Scan.Empty.of_hasNoCode own).after_neutral
      rw [show Carry.neutral.openString = none from rfl, closed]
      exact inductionHypothesis others

/-- The header of a wrapper leaves nothing open. -/
theorem through_wrapperHeader
    (unit : IndentUnit)
    (depth : Nat)
    {name : Text}
    (named : isIdentifier name = true)
    (below : List Text) :
    Carry.neutral.through ((wrapperHeader unit depth name).text :: below) =
      Carry.neutral.through below := by
  have text : (wrapperHeader unit depth name).text = unit.lead depth ++ headerCode name := by
    simp [wrapperHeader, headerCode]
  have moved := Scan.moved_of_sameCode (unit.sameCode_lead_append depth (headerCode name))
  have closed : Carry.neutral.after (Scan.line none (unit.lead depth ++ headerCode name)) =
      .neutral :=
    (Carry.after_moved _ moved).trans (after_headerCode named)
  rw [text, Carry.through]
  exact congrArg (Carry.through · below) closed

/-- The lines of a run leave open one level deeper what they leave open as they are. -/
theorem through_wrappedText
    (unit : IndentUnit)
    {carry : Carry}
    {context : Context}
    {members below : List Line}
    (known : readLines carry context (members ++ below) = members ++ below) :
    carry.through (members.map (wrappedText unit)) = carry.through (members.map (·.text)) := by
  have wrapped : (members.map fun line => { line with text := wrappedText unit line }).map (·.text) =
      members.map (wrappedText unit) := by
    rw [List.map_map]
    rfl
  rw [← wrapped]
  exact (reindented_of_wrappedText unit known wrapped).through_eq

/-- The texts a wrapped run is left with, below its header. -/
theorem texts_wrap
    (unit : IndentUnit)
    (name : Text)
    (members : List Line) :
    Verdict.texts unit (.wrap name (members.map runMember)) =
      (wrapperHeader unit (((members.map runMember).head?.map (·.line.depth)).getD 0) name).text ::
        members.map (wrappedText unit) := by
  rw [Verdict.texts, Verdict.lines, List.map_cons, List.map_map, List.map_map]
  exact congrArg _ (List.map_congr_left fun line _ =>
    text_wrapLine_markOrphan unit (seedLine line))

theorem hasNoCode_of_mem_texts_suppress
    {unit : IndentUnit}
    {members : List Tracked}
    {text : Text}
    (isText : text ∈ Verdict.texts unit (.suppress members)) :
    text.hasNoCode = true := by
  rw [Verdict.texts, Verdict.lines, List.map_map] at isText
  obtain ⟨member, _, rfl⟩ := List.mem_map.mp isText
  exact hasNoCode_suppressLine member

namespace Decides

variable
  {verdict : Verdict}
  {verdicts : List Verdict}

theorem ne_nil
    {lines : List Line}
    (decides : Decides lines (verdict :: verdicts)) :
    lines ≠ [] := by
  cases decides <;> simp

/-- What is open below the lines of a verdict, where lines follow, is open below what it leaves. -/
theorem exists_below
    (unit : IndentUnit)
    {carry : Carry}
    {context : Context}
    {lines : List Line}
    {next : Verdict}
    (decides : Decides lines (verdict :: next :: verdicts))
    (known : readLines carry context lines = lines) :
    ∃ below beneath,
      Decides below (next :: verdicts) ∧
        readLines (carry.through (verdict.texts unit)) beneath below = below := by
  cases decides with
  | @keep line rest _ housed decided =>
      rw [readLines_cons, List.cons.injEq] at known
      exact ⟨rest, _, decided, known.2⟩
  | @wrap lead members below name _ isRun named decided =>
      obtain rfl := eq_neutral_of_isRun isRun known
      have texts := through_wrappedText unit known
      obtain ⟨beneath, read⟩ := exists_drop_readLines .neutral context (lead :: members) below
      rw [known, List.drop_left] at read
      refine ⟨below, beneath, decided, ?_⟩
      rw [texts_wrap, through_wrapperHeader unit _ named]
      exact (congrArg (readLines · beneath below) texts).trans read.symm
  | @suppress lead members below _ isRun decided =>
      obtain rfl := eq_neutral_of_isRun isRun known
      obtain ⟨beneath, read⟩ := exists_drop_readLines .neutral context (lead :: members) below
      rw [known, List.drop_left] at read
      refine ⟨below, beneath, decided, ?_⟩
      rw [through_of_hasNoCode fun text => hasNoCode_of_mem_texts_suppress]
      have closed : Carry.neutral.through ((lead :: members).map (·.text)) = .neutral := by
        obtain ⟨first, others, shape⟩ := List.exists_cons_of_ne_nil decided.ne_nil
        subst shape
        exact eq_neutral_of_starts read.symm (isRun.closed first rfl)
      rw [closed] at read
      exact read.symm

/-- Every verdict is about lines that are read with what is left open above it. -/
theorem exists_of_append
    (unit : IndentUnit)
    {carry : Carry}
    {context : Context}
    {lines : List Line}
    {above : List Verdict}
    (decides : Decides lines (above ++ verdict :: verdicts))
    (known : readLines carry context lines = lines) :
    ∃ below beneath,
      Decides below (verdict :: verdicts) ∧
        readLines (carry.through (above.flatMap (Verdict.texts unit))) beneath below = below := by
  induction above generalizing carry context lines with
  | nil =>
      exact ⟨lines, context, decides, known⟩
  | cons first rest inductionHypothesis =>
      have someNext : rest ++ verdict :: verdicts ≠ [] := by
        simp
      obtain ⟨next, others, shape⟩ := List.exists_cons_of_ne_nil someNext
      rw [List.cons_append, shape] at decides
      obtain ⟨below, beneath, decided, read⟩ := decides.exists_below unit known
      rw [← shape] at decided
      rw [List.flatMap_cons, Carry.through_append]
      exact inductionHypothesis decided read

/-- Nothing is open above what is commented out. -/
theorem through_above_suppress
    (unit : IndentUnit)
    {context : Context}
    {lines : List Line}
    {above : List Verdict}
    {members : List Tracked}
    (decides : Decides lines (above ++ .suppress members :: verdicts))
    (known : readLines .neutral context lines = lines) :
    Carry.neutral.through (above.flatMap (Verdict.texts unit)) = .neutral := by
  obtain ⟨below, beneath, decided, read⟩ := decides.exists_of_append unit known
  cases decided with
  | suppress isRun _ =>
      exact eq_neutral_of_isRun isRun read

end Decides

end Orphan

/-- A place in joined texts is a place in one of them. -/
theorem exists_of_flatMap_eq_append_cons
    {α β : Type}
    {pieces : α → List β}
    {items : List α}
    {above below : List β}
    {member : β}
    (shape : items.flatMap pieces = above ++ member :: below) :
    ∃ before item after early late,
      items = before ++ item :: after ∧
        pieces item = early ++ member :: late ∧
        above = before.flatMap pieces ++ early := by
  induction items generalizing above with
  | nil =>
      simp at shape
  | cons first rest inductionHypothesis =>
      rw [List.flatMap_cons, List.append_eq_append_iff] at shape
      rcases shape with ⟨between, rfl, inRest⟩ | ⟨others, isFirst, shared⟩
      · obtain ⟨before, item, after, early, late, rfl, within, rfl⟩ := inductionHypothesis inRest
        exact ⟨first :: before, item, after, early, late, rfl, within, by simp⟩
      · cases others with
        | nil =>
            rw [List.append_nil] at isFirst
            have inRest : rest.flatMap pieces = [] ++ member :: below := shared.symm
            obtain ⟨before, item, after, early, late, rfl, within, noneAbove⟩ :=
              inductionHypothesis inRest
            exact ⟨first :: before, item, after, early, late, rfl, within, by
              rw [List.flatMap_cons, List.append_assoc, ← noneAbove, List.append_nil, isFirst]⟩
        | cons next others =>
            obtain ⟨rfl, _⟩ := List.cons.inj shared
            exact ⟨[], first, rest, above, others, rfl, isFirst, rfl⟩

/-- A text that begins with a comment mark, after its indentation. -/
def Text.IsComment
    (text : Text) :
    Prop :=
  ∃ comment, text.dropIndentation = '#' :: comment

namespace Text.IsComment

theorem exists_shape
    {text : Text}
    (isComment : text.IsComment) :
    ∃ comment, text = text.indentation ++ '#' :: comment := by
  obtain ⟨comment, marked⟩ := isComment
  exact ⟨comment, marked ▸ List.takeWhile_append_dropWhile.symm⟩

theorem isBlank_eq_false
    {text : Text}
    (isComment : text.IsComment) :
    text.isBlank = false := by
  obtain ⟨comment, shape⟩ := isComment.exists_shape
  rw [shape, Text.isBlank_append]
  exact Bool.and_false _

/-- Such a text is a comment in every context. -/
theorem classify_eq
    {text : Text}
    (isComment : text.IsComment)
    (context : Context) :
    classify context text = (.comment, false) := by
  have visible := isComment.isBlank_eq_false
  obtain ⟨comment, shape⟩ := isComment.exists_shape
  have indents : ∀ character ∈ text.indentation, isIndentChar character = true :=
    fun _ member => List.mem_takeWhile_imp member
  have noCode : (Scan.line none text).code.trim = [] := by
    rw [shape, Scan.line_indentation_append indents, Scan.line_comment, List.append_nil]
    exact (Text.trim_eq_nil_iff _).mpr (List.all_eq_true.mpr fun character member =>
      isBlankChar_of_isIndentChar (indents character member))
  unfold classify
  dsimp only
  rw [visible, noCode]
  rfl

end Text.IsComment

namespace Marker

/-- Every marker begins with a comment mark. -/
theorem exists_of_payload?
    {comment : Text}
    {payload : Text × IssueKind}
    (isPayload : payload? comment = some payload) :
    ∃ rest, comment = '#' :: rest := by
  unfold payload? at isPayload
  split at isPayload
  · rename_i recovered
    exact ⟨_, Text.afterHead?_eq_some_iff.mp recovered⟩
  · obtain ⟨code, isLegacy, _⟩ := Option.map_eq_some_iff.mp isPayload
    obtain ⟨marker, isMarker, after⟩ := List.exists_of_findSome?_eq_some isLegacy
    simp only [legacy, List.map_cons, List.map_nil, List.mem_cons, List.not_mem_nil,
      or_false] at isMarker
    rcases isMarker with rfl | rfl | rfl <;>
      exact ⟨_, Text.afterHead?_eq_some_iff.mp after⟩

/-- A line that carries a marker is a comment. -/
theorem isComment_of_found?
    {line : Line}
    {found : Found}
    (isFound : found? line = some found) :
    line.category = .comment ∧ line.text.IsComment := by
  unfold found? at isFound
  split at isFound
  · rename_i comment
    split at isFound
    · rename_i isPayload
      exact ⟨comment, exists_of_payload? isPayload⟩
    · cases isFound
  · cases isFound

end Marker

/-- A suppressed line is a comment unless it is blank. -/
theorem Orphan.isComment_suppressLine
    {tracked : Tracked}
    (visible : tracked.line.text.isBlank = false) :
    (suppressLine tracked).line.text.IsComment := by
  rw [suppressLine, visible]
  exact ⟨_, rfl⟩

/-- A comment is read where nothing is open. -/
theorem eq_neutral_of_comment
    {carry : Carry}
    {context : Context}
    {line : Line}
    {rest : List Line}
    (known : readLines carry context (line :: rest) = line :: rest)
    (comment : line.category = .comment) :
    carry = .neutral := by
  rw [readLines_cons, List.cons.injEq] at known
  have category : (if carry.isNeutral then classify context line.text else (.other, false)).1 =
      line.category := by
    rw [← known.1]
    rfl
  rw [comment] at category
  cases isNeutral : carry.isNeutral with
  | true =>
      exact (Carry.isNeutral_iff carry).mp isNeutral
  | false =>
      rw [isNeutral] at category
      cases category

namespace Orphan

theorem declares_wrapLine
    (unit : IndentUnit)
    (tracked : Tracked) :
    (wrapLine unit tracked).declares = tracked.declares := by
  unfold wrapLine
  dsimp only
  split <;> rfl

theorem declares_runMember
    (line : Line) :
    (runMember line).declares = (Marker.found? line).bind (boundName? ·.payload) := by
  unfold runMember Tracked.markOrphan
  split <;> rfl

theorem isComment_wrappedText
    (unit : IndentUnit)
    {line : Line}
    (isComment : line.text.IsComment) :
    (wrappedText unit line).IsComment := by
  obtain ⟨comment, marked⟩ := isComment
  unfold wrappedText
  split
  · exact ⟨comment, marked⟩
  · have moved := unit.sameCode_lead_append 1 line.text
    exact ⟨comment, Eq.trans moved.symm marked⟩

/-- A line that declares something on its own or in a run carries a marker. -/
theorem isComment_of_boundName?
    {line : Line}
    (declares : ((Marker.found? line).bind (boundName? ·.payload)).isSome = true) :
    line.category = .comment ∧ line.text.IsComment := by
  obtain ⟨found, isFound⟩ := Option.isSome_iff_exists.mp (Option.isSome_of_isSome_bind declares)
  exact Marker.isComment_of_found? isFound

/-- A declaration that is wrapped stays a comment, and nothing is open above it. -/
theorem isComment_of_declares_wrap
    {unit : IndentUnit}
    {context : Context}
    {lead : Line}
    {members rest : List Line}
    {name : Text}
    (named : isIdentifier name = true)
    (known : readLines .neutral context (lead :: members ++ rest) = lead :: members ++ rest)
    {early late : List Tracked}
    {tracked : Tracked}
    (within : (Verdict.wrap name ((lead :: members).map runMember)).lines unit =
      early ++ tracked :: late)
    (declares : tracked.declares.isSome = true) :
    Carry.neutral.through (early.map (·.line.text)) = .neutral ∧ tracked.line.text.IsComment := by
  rw [Verdict.lines, List.map_map] at within
  cases early with
  | nil =>
      obtain ⟨rfl, _⟩ := List.cons.inj within
      cases declares
  | cons header early =>
      obtain ⟨rfl, others⟩ := List.cons.inj within
      obtain ⟨first, last, memberShape, rfl, isLast⟩ := List.map_eq_append_iff.mp others
      obtain ⟨line, second, rfl, rfl, rfl⟩ := List.map_eq_cons_iff.mp isLast
      rw [memberShape, List.append_assoc] at known
      rw [Function.comp_apply, declares_wrapLine, declares_runMember] at declares
      obtain ⟨comment, isComment⟩ := isComment_of_boundName? declares
      constructor
      · -- the lines above it are moved only, and what they leave open is seen by the line itself
        have movedTexts : (first.map (wrapLine unit ∘ runMember)).map (·.line.text) =
            first.map (wrappedText unit) := by
          rw [List.map_map]
          exact List.map_congr_left fun line _ => text_wrapLine_markOrphan unit (seedLine line)
        obtain ⟨inside, readBelow⟩ := exists_drop_readLines .neutral context first
          (line :: second ++ rest)
        rw [known, List.drop_left] at readBelow
        rw [List.map_cons, through_wrapperHeader unit _ named, movedTexts,
          through_wrappedText unit known]
        exact eq_neutral_of_comment readBelow.symm comment
      · change (wrapLine unit (seedLine line).markOrphan).line.text.IsComment
        rw [text_wrapLine_markOrphan]
        exact isComment_wrappedText unit isComment

/-- A declaration that is suppressed is a comment, and so is what stands above it. -/
theorem isComment_of_declares_suppress
    {unit : IndentUnit}
    {members : List Line}
    {early late : List Tracked}
    {tracked : Tracked}
    (within : (Verdict.suppress (members.map runMember)).lines unit = early ++ tracked :: late)
    (declares : tracked.declares.isSome = true) :
    Carry.neutral.through (early.map (·.line.text)) = .neutral ∧ tracked.line.text.IsComment := by
  constructor
  · refine through_of_hasNoCode fun text isText => ?_
    have among : text ∈ Verdict.texts unit (.suppress (members.map runMember)) := by
      rw [Verdict.texts, within, List.map_append]
      exact List.mem_append_left _ isText
    exact hasNoCode_of_mem_texts_suppress among
  · rw [Verdict.lines, List.map_map] at within
    have isMember : tracked ∈ members.map (suppressLine ∘ runMember) :=
      within ▸ List.mem_append_right _ List.mem_cons_self
    obtain ⟨line, _, rfl⟩ := List.mem_map.mp isMember
    refine isComment_suppressLine (Bool.eq_false_iff.mpr fun blank => ?_)
    -- a blank line is left as it is, and carries no marker
    have unchanged : (suppressLine ∘ runMember) line = runMember line := by
      rw [Function.comp_apply, suppressLine, if_pos blank]
    rw [unchanged, declares_runMember] at declares
    have visible := (isComment_of_boundName? declares).2.isBlank_eq_false
    rw [runMember, Tracked.markOrphan_text] at blank
    exact absurd blank (Bool.eq_false_iff.mp visible)

/-- What stands for a declaration is a comment above which nothing is open. -/
theorem Decides.isComment_of_declares
    {unit : IndentUnit}
    {context : Context}
    {lines : List Line}
    {verdicts : List Verdict}
    (decides : Decides lines verdicts)
    (known : readLines .neutral context lines = lines)
    {above below : List Tracked}
    {tracked : Tracked}
    (shape : verdicts.flatMap (·.lines unit) = above ++ tracked :: below)
    (declares : tracked.declares.isSome = true) :
    Carry.neutral.through (above.map (·.line.text)) = .neutral ∧ tracked.line.text.IsComment := by
  obtain ⟨before, verdict, after, early, late, rfl, within, rfl⟩ :=
    exists_of_flatMap_eq_append_cons shape
  obtain ⟨rest, beneath, decided, read⟩ := decides.exists_of_append unit known
  have texts : (before.flatMap (·.lines unit)).map (·.line.text) =
      before.flatMap (Verdict.texts unit) := by
    rw [List.map_flatMap]
    rfl
  rw [List.map_append, Carry.through_append, texts]
  cases decided with
  | @keep line rest _ housed decided =>
      have own : [seedLine line] = early ++ tracked :: late := within
      obtain ⟨rfl, rfl, rfl⟩ : early = [] ∧ tracked = seedLine line ∧ late = [] := by
        cases early with
        | nil =>
            simpa [eq_comm] using own
        | cons first others =>
            simp at own
      obtain ⟨comment, isComment⟩ := isComment_of_boundName? declares
      exact ⟨eq_neutral_of_comment read comment, isComment⟩
  | wrap isRun named decided =>
      have neutral := eq_neutral_of_isRun isRun read
      rw [neutral] at read ⊢
      exact isComment_of_declares_wrap named read within declares
  | suppress isRun decided =>
      rw [eq_neutral_of_isRun isRun read]
      exact isComment_of_declares_suppress within declares

end Orphan

end ScriptUplift
