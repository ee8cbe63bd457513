import Mathlib.Tactic.Common
import ScriptUplift.Proofs.CodelessLines
import ScriptUplift.Proofs.OrphanTexts
import ScriptUplift.Proofs.RunMembers
import ScriptUplift.Proofs.StrandedDeclarations
import ScriptUplift.Proofs.UpliftTrace

namespace ScriptUplift

/-!
# What runs are resolved to

Orphan repair leaves a file that shows the old one stretch by stretch: a line
outside of the runs with its text, a wrapped run one level deeper under a header
that is a line of code, and a suppressed run without code.  No stretch reaches
into the next one.  A statement outside of the runs is therefore the same
statement, with the same lines, before and after.
-/

namespace Orphan

/-- The text a line of a wrapped run is left with. -/
def wrappedText
    (unit : IndentUnit)
    (line : Line) :
    Text :=
  if line.text.isBlank || line.inString then line.text else unit.lead 1 ++ line.text

/-- Lines and what orphan repair leaves of them, as far as texts tell. -/
inductive Resolves
    (unit : IndentUnit) :
    List Line → List Line → Prop
  | nil :
      Resolves unit [] []
  | kept
      {line out : Line}
      {rest others : List Line}
      (housed : line.leadsIn = false)
      (text : out.text = line.text)
      (resolved : Resolves unit rest others) :
      Resolves unit (line :: rest) (out :: others)
  | wrapped
      {lead header : Line}
      {members below moved others : List Line}
      {name : Text}
      (isRun : IsRun lead members below)
      (named : isIdentifier name = true)
      (isHeader : header.text = unit.lead lead.depth ++ headerCode name)
      (texts : moved.map (·.text) = (lead :: members).map (wrappedText unit))
      (resolved : Resolves unit below others) :
      Resolves unit (lead :: members ++ below) (header :: moved ++ others)
  | suppressed
      {lead : Line}
      {members below hidden others : List Line}
      (isRun : IsRun lead members below)
      (noCode : ∀ line ∈ hidden, line.text.hasNoCode = true)
      (resolved : Resolves unit below others) :
      Resolves unit (lead :: members ++ below) (hidden ++ others)

/-- A line of a run as the verdict about the run gets it. -/
def runMember
    (line : Line) :
    Tracked :=
  (seedLine line).markOrphan

/-- Verdicts about lines, one for every stretch of them. -/
inductive Decides :
    List Line → List Verdict → Prop
  | nil :
      Decides [] []
  | keep
      {line : Line}
      {rest : List Line}
      {verdicts : List Verdict}
      (housed : line.leadsIn = false)
      (decided : Decides rest verdicts) :
      Decides (line :: rest) (.keep (seedLine line) :: verdicts)
  | wrap
      {lead : Line}
      {members below : List Line}
      {name : Text}
      {verdicts : List Verdict}
      (isRun : IsRun lead members below)
      (named : isIdentifier name = true)
      (decided : Decides below verdicts) :
      Decides (lead :: members ++ below)
        (.wrap name ((lead :: members).map runMember) :: verdicts)
  | suppress
      {lead : Line}
      {members below : List Line}
      {verdicts : List Verdict}
      (isRun : IsRun lead members below)
      (decided : Decides below verdicts) :
      Decides (lead :: members ++ below)
        (.suppress ((lead :: members).map runMember) :: verdicts)

@[simp] theorem text_wrapLine_markOrphan
    (unit : IndentUnit)
    (seed : Tracked) :
    (wrapLine unit seed.markOrphan).line.text = wrappedText unit seed.line := by
  have sameString : seed.markOrphan.line.inString = seed.line.inString :=
    seed.shows_markOrphan.inString
  unfold wrapLine wrappedText
  dsimp only
  rw [sameString, Tracked.markOrphan_text]
  split <;> rfl

/-- A line that is commented out holds no code. -/
theorem hasNoCode_suppressLine
    (tracked : Tracked) :
    (suppressLine tracked).line.text.hasNoCode = true := by
  unfold suppressLine
  split
  · rename_i blank
    simp [Text.hasNoCode, blank]
  · rfl

/-- The name of a wrapper is a word. -/
theorem isIdentifier_freshName
    {base : Text}
    (named : isIdentifier base = true)
    (taken : List Text) :
    isIdentifier (freshName base taken) = true := by
  unfold freshName
  split
  · obtain ⟨ending, letters, shape⟩ := exists_ending_freshNumberedName base taken 2
    rw [shape]
    exact isIdentifier_append named letters
  · exact named

/-- Verdicts are about the lines they are given, wrappers being named by a word. -/
theorem decides_decideAll
    {base : Text}
    (named : isIdentifier base = true)
    (lines : List Line)
    (taken : List Text) :
    Decides lines (decideAll base taken (Segment.cut 0 (lines.map seedLine))) := by
  induction sameLength : lines.length using Nat.strong_induction_on generalizing lines taken with
  | _ length inductionHypothesis =>
      cases lines with
      | nil =>
          exact .nil
      | cons line rest =>
          rw [List.map_cons, Segment.cut]
          split
          · rename_i leads
            have isRun := isRun_of_leadsIn leads rest
            dsimp only at isRun ⊢
            generalize reachIs : runReach (rest.map seedLine) = reach at isRun ⊢
            have shorter : (rest.drop reach).length < length := by
              rw [← sameLength, List.length_drop, List.length_cons]
              omega
            have shape : line :: rest = line :: rest.take reach ++ rest.drop reach := by
              rw [List.cons_append, List.take_append_drop]
            have runShape : (seedLine line :: (rest.map seedLine).take reach).map
                Tracked.markOrphan = (line :: rest.take reach).map runMember := by
              rw [← List.map_take, ← List.map_cons, List.map_map]
              rfl
            rw [Segment.cut_eq_cut_drop, ← List.map_drop, runShape, shape]
            have decided (others : List Text) := inductionHypothesis _ shorter _ others rfl
            rw [decideAll]
            split
            · exact .wrap isRun (isIdentifier_freshName named taken) (decided _)
            · exact .suppress isRun (decided _)
          · rename_i stays
            have shorter : rest.length < length := by
              rw [← sameLength]
              exact Nat.lt_succ_self _
            exact .keep (Bool.eq_false_iff.mpr stays) (inductionHypothesis _ shorter rest taken rfl)

theorem decides_verdictsOf
    {wrapperName : String}
    (named : isIdentifier (baseName wrapperName) = true)
    (lines : List Line) :
    Decides lines (verdictsOf wrapperName lines) :=
  decides_decideAll named lines _

/-- The lines that verdicts leave resolve those they are about. -/
theorem Decides.resolves
    (unit : IndentUnit)
    {lines : List Line}
    {verdicts : List Verdict}
    (decides : Decides lines verdicts) :
    Resolves unit lines ((verdicts.flatMap (·.lines unit)).map (·.line)) := by
  induction decides with
  | nil =>
      exact .nil
  | keep housed decided inductionHypothesis =>
      rw [List.flatMap_cons, List.map_append]
      exact .kept housed rfl inductionHypothesis
  | wrap isRun named decided inductionHypothesis =>
      rw [List.flatMap_cons, List.map_append, Verdict.lines, List.map_cons]
      refine .wrapped isRun named ?_ ?_ inductionHypothesis
      · simp [Verdict.leadDepth, wrapperHeader, headerCode, runMember, seedLine]
      · simp only [List.map_map]
        exact List.map_congr_left fun member _ => text_wrapLine_markOrphan unit (seedLine member)
  | suppress isRun decided inductionHypothesis =>
      rw [List.flatMap_cons, List.map_append, Verdict.lines]
      refine .suppressed isRun ?_ inductionHypothesis
      intro out member
      obtain ⟨tracked, isTracked, rfl⟩ := List.mem_map.mp member
      obtain ⟨hidden, _, rfl⟩ := List.mem_map.mp isTracked
      exact hasNoCode_suppressLine hidden

/-- Orphan repair leaves lines that resolve those of the file. -/
theorem resolves_resolvedLines
    {wrapperName : String}
    (named : isIdentifier (baseName wrapperName) = true)
    (unit : IndentUnit)
    (lines : List Line) :
    Resolves unit lines (resolvedLines wrapperName unit lines) :=
  (decides_verdictsOf named lines).resolves unit

end Orphan

theorem leadsBlock_cons
    (carry : Carry)
    (line : Line)
    (rest : List Line) :
    leadsBlock carry (line :: rest) =
      if (carry.after (Scan.line carry.openString line.text)).isNeutral then
        opensBlock (Scan.line carry.openString line.text).code
      else
        leadsBlock (carry.after (Scan.line carry.openString line.text)) rest :=
  rfl

/-- Where a statement goes on no line leads into a run. -/
theorem leadsIn_eq_false_of_open
    {carry : Carry}
    {context : Context}
    {line : Line}
    {rest : List Line}
    (known : readLines carry context (line :: rest) = line :: rest)
    (unfinished : carry.isNeutral = false) :
    line.leadsIn = false := by
  rw [Bool.eq_false_iff]
  intro leads
  rw [readLines_cons, List.cons.injEq] at known
  have neutral := Line.isNeutral_of_isStatement known.1 (Line.isStatement_of_leadsIn leads)
  exact absurd (unfinished.symm.trans neutral) Bool.false_ne_true

namespace Orphan.Resolves

/-- The lines a statement goes on with are outside of the runs. -/
theorem leadsBlock_eq_of_open
    {unit : IndentUnit}
    {lines others : List Line}
    (resolves : Resolves unit lines others)
    {carry : Carry}
    {context : Context}
    (known : readLines carry context lines = lines)
    (unfinished : carry.isNeutral = false) :
    leadsBlock carry others = leadsBlock carry lines := by
  induction resolves generalizing carry context with
  | nil =>
      rfl
  | kept housed text resolved inductionHypothesis =>
      rw [readLines_cons, List.cons.injEq] at known
      rw [leadsBlock_cons, leadsBlock_cons, text]
      split
      · rfl
      · rename_i goesOn
        exact inductionHypothesis known.2 (Bool.eq_false_iff.mpr goesOn)
  | wrapped isRun named isHeader texts resolved =>
      have never := leadsIn_eq_false_of_open known unfinished
      exact absurd (never.symm.trans isRun.leads) Bool.false_ne_true
  | suppressed isRun noCode resolved =>
      have never := leadsIn_eq_false_of_open known unfinished
      exact absurd (never.symm.trans isRun.leads) Bool.false_ne_true

/-- A statement outside of the runs opens a block or not as before. -/
theorem leadsBlock_cons_eq
    {unit : IndentUnit}
    {line out : Line}
    {rest others : List Line}
    (resolves : Resolves unit rest others)
    (sameText : out.text = line.text)
    {carry : Carry}
    {context : Context}
    (known : readLines carry context (line :: rest) = line :: rest) :
    leadsBlock carry (out :: others) = leadsBlock carry (line :: rest) := by
  rw [readLines_cons, List.cons.injEq] at known
  rw [leadsBlock_cons, leadsBlock_cons, sameText]
  split
  · rfl
  · rename_i goesOn
    exact resolves.leadsBlock_eq_of_open known.2 (Bool.eq_false_iff.mpr goesOn)

end Orphan.Resolves

/-! ## Wrapped lines -/

/-- A line of a run, one level deeper, is moved sideways, and not at all inside of a string. -/
theorem Orphan.wrappedText_moved
    (unit : IndentUnit)
    {carry : Carry}
    {context : Context}
    {opens : Bool}
    {line : Line}
    (known : line.readIn carry context opens = line) :
    line.text.SameCode (wrappedText unit line) ∧
      (carry.openString.isSome = true → wrappedText unit line = line.text) := by
  have inString : line.inString = carry.openString.isSome := by
    rw [← known]
    rfl
  unfold wrappedText
  constructor
  · split
    · exact .refl _
    · exact unit.sameCode_lead_append 1 _
  · intro opened
    rw [inString, opened, Bool.or_true, if_pos rfl]

/-- The lines of a run, one level deeper, are moved sideways. -/
theorem reindented_of_wrappedText
    (unit : IndentUnit)
    {carry : Carry}
    {context : Context}
    {members below moved : List Line}
    (known : readLines carry context (members ++ below) = members ++ below)
    (texts : moved.map (·.text) = members.map (Orphan.wrappedText unit)) :
    Reindented carry (members.map (·.text)) (moved.map (·.text)) := by
  rw [texts]
  clear texts
  induction members generalizing carry context with
  | nil =>
      exact .nil carry
  | cons line rest inductionHypothesis =>
      rw [List.cons_append, readLines_cons, List.cons.injEq] at known
      obtain ⟨same, kept⟩ := Orphan.wrappedText_moved unit known.1
      exact .cons same kept (inductionHypothesis known.2)

/-- Lines moved sideways, at whose end nothing is open, open a block or not as before. -/
theorem leadsBlock_append_reindented
    {carry : Carry}
    {first second : List Line}
    (reindented : Reindented carry (first.map (·.text)) (second.map (·.text)))
    (notEmpty : first ≠ [])
    {below others : List Line}
    (closed : carry.through (first.map (·.text)) = .neutral ∨ below = [] ∧ others = []) :
    leadsBlock carry (second ++ others) = leadsBlock carry (first ++ below) := by
  rcases closed with closed | ⟨rfl, rfl⟩
  · have notEmptyAgain : second ≠ [] := by
      rintro rfl
      cases first with
      | nil =>
          exact notEmpty rfl
      | cons line rest =>
          cases reindented
    rw [leadsBlock_append notEmpty closed,
      leadsBlock_append notEmptyAgain (reindented.through_eq.trans closed),
      leadsBlock_reindented reindented]
  · rw [List.append_nil, List.append_nil, leadsBlock_reindented reindented]

/-! ## The header of a wrapper -/

/-- What begins with the keyword for methods is read as the header of one. -/
theorem Category.ofKeyword_of_func
    (context : Context)
    (depth : Nat)
    (kind : AnnotationKind)
    {code : Text}
    (isFunc : (firstWord code).1 = "func".toList) :
    ofKeyword context depth kind code = ofMethod (firstWord code).2 := by
  cases code with
  | nil =>
      exact absurd isFunc (by decide)
  | cons first rest =>
      unfold ofKeyword
      rw [List.length_cons, ofKeywordWithin]
      dsimp only
      rw [isFunc]
      rfl

namespace Orphan

theorem headerCode_concat
    (name : Text) :
    headerCode name = ("func ".toList ++ name ++ ['(', ')']) ++ [':'] := by
  simp [headerCode]

theorem dropEndIndentation_headerCode
    (name : Text) :
    (headerCode name).dropEndIndentation = headerCode name := by
  rw [headerCode_concat, Text.dropEndIndentation, Text.dropEndWhile, List.reverse_concat,
    List.dropWhile_cons_of_neg (by decide), List.reverse_cons, List.reverse_reverse]

theorem opensBlock_headerCode
    (name : Text) :
    opensBlock (headerCode name) = true := by
  rw [opensBlock, dropEndIndentation_headerCode, headerCode_concat]
  exact List.isSuffixOf_iff_suffix.mpr (List.suffix_append _ _)

variable
  {name : Text}
  (named : isIdentifier name = true)

include named

/-- The header of a wrapper is code from end to end and leaves nothing open. -/
theorem scan_headerCode :
    Scan.line none (headerCode name) = ⟨headerCode name, [], 0, none⟩ := by
  have keyword := Scan.line_append_of_plain (by decide : "func".toList.all isPlainChar = true)
    (' ' :: (name ++ ['(', ')', ':']))
  have blank : Scan.line none (' ' :: (name ++ ['(', ')', ':'])) =
      Scan.cons ' ' (bracketStep ' ') (Scan.line none (name ++ ['(', ')', ':'])) :=
    Scan.line_cons_plain (by decide) (by decide) _
  have own := Scan.line_append_of_plain
    (all_isPlainChar_of_word (all_isIdentifierChar_of_isIdentifier named))
    ['(', ')', ':']
  have brackets : Scan.line none ['(', ')', ':'] = ⟨['(', ')', ':'], [], 0, none⟩ := by
    decide
  rw [own, brackets] at blank
  rw [blank] at keyword
  exact keyword

theorem after_headerCode :
    Carry.neutral.after (Scan.line none (headerCode name)) = .neutral := by
  have noBackslash : Text.endsWith (Text.dropEndIndentation (headerCode name)) ['\\'] = false := by
    rw [dropEndIndentation_headerCode, headerCode_concat, Bool.eq_false_iff]
    intro ends
    obtain ⟨front, same⟩ := List.isSuffixOf_iff_suffix.mp ends
    have lasts : ['\\'] = [':'] := List.append_inj_right' same rfl
    exact absurd lasts (by decide)
  rw [scan_headerCode named]
  simp [Carry.after, Scan.backslash, Carry.neutral, noBackslash]

/-- The header of a wrapper is read as one of a method everywhere. -/
theorem classify_headerCode
    (context : Context) :
    ∃ category : Category, category.isMethod = true ∧
      classify context (headerCode name) = (category, false) := by
  have trimmed : (headerCode name).trim = headerCode name := by
    refine Text.trim_of_visible_ends ?_ ?_
    · rintro character ⟨⟩
      decide
    · rw [headerCode_concat, List.getLast?_concat]
      rintro character ⟨⟩
      decide
  have bare : (Peeled.ofCode (headerCode name)).found = false := by
    rw [Bool.eq_false_iff]
    intro annotated
    obtain ⟨_, marked⟩ := Peeled.exists_mark_of_found annotated
    exact absurd (List.cons.inj marked).1 (by decide)
  have someName : (firstWord (firstWord (headerCode name)).2).1 ≠ [] := by
    cases name with
    | nil =>
        cases named
    | cons first rest =>
        rw [isIdentifier, Bool.and_eq_true] at named
        have letter : isIdentifierChar first = true := by
          rw [isIdentifierChar, named.1, Bool.true_or]
        have noIndent := isIndentChar_of_isIdentifierChar letter
        have after : (firstWord (headerCode (first :: rest))).2 =
            ' ' :: first :: (rest ++ ['(', ')', ':']) := rfl
        rw [after, firstWord, Text.dropIndentation, List.dropWhile_cons_of_pos (by decide),
          List.dropWhile_cons_of_neg (by simp [noIndent]), List.takeWhile_cons_of_pos letter]
        exact List.cons_ne_nil _ _
  refine ⟨_, Category.isMethod_ofMethod someName, ?_⟩
  have code : (Scan.line none (headerCode name)).code = headerCode name := by
    rw [scan_headerCode named]
  have visible : (headerCode name).isBlank = false := rfl
  have noString : (List.isEmpty (headerCode name) || isStringOnly (headerCode name)) = false := rfl
  unfold classify
  dsimp only
  rw [visible, if_neg Bool.false_ne_true, code, trimmed, noString, if_neg Bool.false_ne_true, bare,
    Bool.false_and, if_neg Bool.false_ne_true, Peeled.rest_of_not_found bare,
    Category.ofKeyword_of_func _ _ _ rfl]

end Orphan

end ScriptUplift
