import Mathlib.Data.List.Chain
import Mathlib.Tactic.Common
import ScriptUplift.Proofs.Nesting

namespace ScriptUplift

/-!
# Blocks that are open where whitespace opens them

Repair trusts categories over whitespace, and so a statement that it moves may
leave blocks open that whitespace has closed.  What it moves never stands left
of the inner classes around it, and so these stay at the bottom of the open
blocks, each in its place, whatever was moved above.  From a method at class
scope on, the open blocks are those of the whitespace as long as nothing below
it is moved.
-/

namespace Indent

/-! ## What whitespace says -/

/-- A statement nests below another one: one level deeper under a header, and no deeper otherwise. -/
def NestsBelow
    (above below : Line) :
    Prop :=
  if above.opens then below.depth = above.depth + 1 else below.depth ≤ above.depth

instance (above below : Line) : Decidable (NestsBelow above below) :=
  inferInstanceAs
    (Decidable (if above.opens then below.depth = above.depth + 1 else below.depth ≤ above.depth))

/-- The statements of lines are indented by whole levels and nest. -/
def WellNested
    (unit : IndentUnit)
    (lines : List Line) :
    Prop :=
  (∀ line ∈ lines.filter (·.isStatement), line.text.indentation = unit.lead line.depth) ∧
    (lines.filter (·.isStatement)).IsChain NestsBelow

instance (unit : IndentUnit) (lines : List Line) : Decidable (WellNested unit lines) :=
  inferInstanceAs (Decidable (_ ∧ _))

/-- The headers that are open below a line: those left of it, and the line if it is one. -/
def headersBelow
    (headers : List Line)
    (line : Line) :
    List Line :=
  if line.isStatement then
    let left := headers.filter (·.depth < line.depth)
    if line.opens then line :: left else left
  else
    headers

/-- The headers that are open below lines, innermost first. -/
def openHeaders
    (lines : List Line) :
    List Line :=
  lines.foldl headersBelow []

/-- The headers around a statement that is found at a depth below lines. -/
def headersAround
    (lines : List Line)
    (depth : Nat) :
    List Line :=
  (openHeaders lines).filter (·.depth < depth)

/-- Headers of inner classes, innermost first, one at each depth from the margin on. -/
def AreClasses : List Line → Prop
  | [] =>
      True
  | header :: outer =>
      frameKindOf header = .innerClass ∧ header.depth = outer.length ∧ AreClasses outer

instance AreClasses.decidable : (headers : List Line) → Decidable (AreClasses headers)
  | [] =>
      .isTrue trivial
  | header :: outer =>
      have := decidable outer
      inferInstanceAs
        (Decidable (frameKindOf header = .innerClass ∧ header.depth = outer.length ∧
          AreClasses outer))

/-- A header below lines opens the body of a method at class scope. -/
structure OpensMethod
    (above : List Line)
    (header : Line) :
    Prop where
  statement : header.isStatement = true
  method : header.category.isMethod = true
  opens : header.opens = true
  classes : AreClasses (headersAround above header.depth)
  depth : header.depth = (headersAround above header.depth).length

instance (above : List Line) (header : Line) : Decidable (OpensMethod above header) :=
  decidable_of_iff
    (header.isStatement = true ∧ header.category.isMethod = true ∧ header.opens = true ∧
      AreClasses (headersAround above header.depth) ∧
      header.depth = (headersAround above header.depth).length)
    ⟨fun ⟨statement, method, opens, classes, depth⟩ => ⟨statement, method, opens, classes, depth⟩,
      fun opensMethod => ⟨opensMethod.statement, opensMethod.method, opensMethod.opens,
        opensMethod.classes, opensMethod.depth⟩⟩

/-! ## Blocks in place -/

/--
Open blocks, innermost first, whose headers stand one at each depth from the
margin on, and whose bodies belong and begin one level deeper.
-/
def InPlace : List Frame → Prop
  | [] =>
      True
  | frame :: outer =>
      frame.headerDepth = outer.length ∧ frame.depth = outer.length + 1 ∧
        (∀ body ∈ frame.bodyDepth, body = outer.length + 1) ∧ InPlace outer

/-- The body of a block has begun. -/
def Frame.Begun
    (frame : Frame) :
    Prop :=
  frame.bodyDepth.isSome = true

namespace InPlace

theorem bodyDepthOf_eq
    {frames : List Frame}
    (inPlace : InPlace frames) :
    bodyDepthOf frames = frames.length := by
  cases frames with
  | nil =>
      rfl
  | cons frame outer =>
      exact inPlace.2.1

theorem of_suffix
    {frames outer : List Frame}
    (inPlace : InPlace frames)
    (isOuter : outer <:+ frames) :
    InPlace outer := by
  induction frames with
  | nil =>
      rw [List.suffix_nil.mp isOuter]
      trivial
  | cons frame rest inductionHypothesis =>
      rcases List.suffix_cons_iff.mp isOuter with rfl | inRest
      · exact inPlace
      · exact inductionHypothesis inPlace.2.2.2 inRest

/-- A body that begins no further left than it belongs begins where it belongs. -/
theorem beginInnermost
    {frames : List Frame}
    (inPlace : InPlace frames)
    {found : Nat}
    (deep : frames.length ≤ found) :
    InPlace (beginInnermost found frames) := by
  cases frames with
  | nil =>
      trivial
  | cons frame outer =>
      obtain ⟨headerDepth, depth, bodyDepth, outerInPlace⟩ := inPlace
      refine ⟨headerDepth, depth, ?_, outerInPlace⟩
      intro body isBody
      rw [← Option.some.inj isBody]
      cases begun : frame.bodyDepth with
      | none =>
          rw [Option.getD_none, headerDepth]
          exact Nat.min_eq_right deep
      | some other =>
          exact bodyDepth other begun

/-- Of blocks in place, all begun, those stay open that begin no deeper than a statement is found. -/
theorem length_closeDeeper
    {frames : List Frame}
    (inPlace : InPlace frames)
    (begun : ∀ frame ∈ frames, frame.Begun)
    (found : Nat) :
    (closeDeeper found frames).length = min found frames.length := by
  induction frames with
  | nil =>
      exact (Nat.min_zero found).symm
  | cons frame outer inductionHypothesis =>
      obtain ⟨body, isBody⟩ := Option.isSome_iff_exists.mp (begun frame List.mem_cons_self)
      have belongs : body = outer.length + 1 := inPlace.2.2.1 body isBody
      rw [closeDeeper, isBody, belongs, Option.any_some]
      split
      · rename_i closes
        have left : found < outer.length + 1 := of_decide_eq_true closes
        rw [inductionHypothesis inPlace.2.2.2
          (fun other member => begun other (List.mem_cons_of_mem _ member)), List.length_cons]
        omega
      · rename_i stays
        have right : ¬found < outer.length + 1 := of_decide_eq_false (Bool.eq_false_iff.mpr stays)
        rw [List.length_cons]
        omega

/-- A block whose header stands left of a statement stays open around it. -/
theorem mem_closeDeeper
    {frames : List Frame}
    (inPlace : InPlace frames)
    {frame : Frame}
    (member : frame ∈ frames)
    {found : Nat}
    (left : frame.headerDepth < found) :
    frame ∈ closeDeeper found frames := by
  induction frames with
  | nil =>
      cases member
  | cons first outer inductionHypothesis =>
      rw [closeDeeper]
      split
      · rename_i closes
        rcases List.mem_cons.mp member with rfl | inOuter
        · obtain ⟨body, isBody, right⟩ := (Option.any_eq_true _ _).mp closes
          have belongs := inPlace.2.2.1 body isBody
          have deeper : found < body := of_decide_eq_true right
          rw [inPlace.1] at left
          omega
        · exact inductionHypothesis inPlace.2.2.2 inOuter
      · exact member

end InPlace

theorem dropToClass_suffix
    (found : Nat)
    (frames : List Frame) :
    dropToClass found frames <:+ frames := by
  fun_induction dropToClass found frames with
  | case1 =>
      exact List.suffix_refl _
  | case2 frame outer stays =>
      exact List.suffix_refl _
  | case3 frame outer closes inductionHypothesis =>
      exact inductionHypothesis.trans (List.suffix_cons frame outer)

theorem closeDeeper_suffix
    (found : Nat)
    (frames : List Frame) :
    closeDeeper found frames <:+ frames := by
  fun_induction closeDeeper found frames with
  | case1 =>
      exact List.suffix_refl _
  | case2 frame outer closes inductionHypothesis =>
      exact inductionHypothesis.trans (List.suffix_cons frame outer)
  | case3 frame outer stays =>
      exact List.suffix_refl _

/-! ## Only the innermost block waits for its body -/

/-- All blocks have begun but perhaps the innermost. -/
def OuterBegun
    (frames : List Frame) :
    Prop :=
  ∀ frame ∈ frames.tail, frame.Begun

namespace OuterBegun

theorem of_suffix
    {frames outer : List Frame}
    (begun : OuterBegun frames)
    (isOuter : outer <:+ frames) :
    OuterBegun outer := by
  obtain ⟨inner, rfl⟩ := isOuter
  intro frame member
  cases inner with
  | nil =>
      exact begun frame member
  | cons first rest =>
      exact begun frame (List.mem_append_right rest (List.mem_of_mem_tail member))

/-- A statement begins the innermost block. -/
theorem beginInnermost
    {frames : List Frame}
    (begun : OuterBegun frames)
    (found : Nat) :
    ∀ frame ∈ beginInnermost found frames, frame.Begun := by
  cases frames with
  | nil =>
      simp [Indent.beginInnermost]
  | cons first outer =>
      rw [Indent.beginInnermost, List.forall_mem_cons]
      exact ⟨rfl, begun⟩

/-- When the innermost block does not wait for its body, every block has begun. -/
theorem forall_begun
    {frames : List Frame}
    (begun : OuterBegun frames)
    (waiting : awaitsBody frames = false) :
    ∀ frame ∈ frames, frame.Begun := by
  cases frames with
  | nil =>
      simp
  | cons first outer =>
      refine List.forall_mem_cons.mpr ⟨?_, begun⟩
      simpa [awaitsBody, Frame.Begun] using waiting

/-- Around a statement every block has begun. -/
theorem around
    {frames : List Frame}
    (begun : OuterBegun frames)
    (line : Line) :
    ∀ frame ∈ around frames line, frame.Begun := by
  unfold Indent.around
  split
  · exact (begun.of_suffix (dropToClass_suffix line.depth frames)).beginInnermost line.depth
  · cases waiting : awaitsBody frames with
    | true =>
        rw [enterStatement_of_awaitsBody waiting]
        exact begun.beginInnermost line.depth
    | false =>
        rw [enterStatement_of_not_awaitsBody waiting]
        intro frame member
        exact begun.forall_begun waiting frame ((closeDeeper_suffix line.depth frames).subset member)

theorem inside
    {frames : List Frame}
    (begun : OuterBegun frames)
    (line : Line) :
    OuterBegun (inside frames line) := by
  have allBegun := begun.around line
  unfold Indent.inside
  split
  · exact allBegun
  · exact fun frame member => allBegun frame (List.mem_of_mem_tail member)

end OuterBegun

/-- Below a statement a block waits for its body exactly if the statement opens one. -/
theorem OuterBegun.awaitsBody_inside
    {frames : List Frame}
    (begun : OuterBegun frames)
    (line : Line) :
    awaitsBody (Indent.inside frames line) = line.opens := by
  cases opens : line.opens with
  | true =>
      exact awaitsBody_inside_of_opens frames opens
  | false =>
      have allBegun := begun.around line
      unfold Indent.inside
      rw [opens, if_neg Bool.false_ne_true]
      cases open? : Indent.around frames line with
      | nil =>
          rfl
      | cons frame outer =>
          rw [open?] at allBegun
          have own : frame.bodyDepth.isSome = true := allBegun frame List.mem_cons_self
          simpa [awaitsBody] using own

/-- Blocks in place around a statement, as many as it is deep, are in place below it. -/
theorem InPlace.inside
    {frames : List Frame}
    {line : Line}
    (inPlace : InPlace (around frames line))
    (depth : line.depth = (around frames line).length) :
    InPlace (inside frames line) := by
  unfold Indent.inside
  split
  · refine ⟨depth, congrArg (· + 1) inPlace.bodyDepthOf_eq, ?_, inPlace⟩
    intro body isBody
    cases isBody
  · exact inPlace

/-- What holds at the start of a repair and below every statement holds below all lines. -/
theorem Progress.belowAll_of_inside
    (holds : List Frame → Prop)
    (preserved : ∀ frames line, holds frames → holds (inside frames line))
    {progress : Progress}
    (start : holds progress.frames)
    (lines : List Line) :
    holds (progress.belowAll lines).frames := by
  unfold belowAll
  induction lines generalizing progress with
  | nil =>
      exact start
  | cons line rest inductionHypothesis =>
      apply inductionHypothesis
      cases statement : line.isStatement with
      | true =>
          rw [progress.frames_below statement]
          exact preserved _ _ start
      | false =>
          rw [progress.below_of_not_isStatement statement]
          exact start

/-! ## Inner classes stay at the bottom -/

/-- The blocks of inner classes, one at each depth from the margin on, in place. -/
structure ClassBlocks
    (count : Nat)
    (frames : List Frame) :
    Prop where
  inPlace : InPlace frames
  kinds : ∀ frame ∈ frames, frame.kind = .innerClass
  length : frames.length = count

/-- Blocks of inner classes at the bottom, and above them blocks whose headers stand no further left. -/
inductive Houses
    (count : Nat) :
    List Frame → Prop
  | classes
      {frames : List Frame}
      (classes : ClassBlocks count frames) :
      Houses count frames
  | cons
      {frame : Frame}
      {outer : List Frame}
      (right : count ≤ frame.headerDepth)
      (below : Houses count outer) :
      Houses count (frame :: outer)

theorem ClassBlocks.nil :
    ClassBlocks 0 [] :=
  ⟨trivial, by simp, rfl⟩

theorem ClassBlocks.beginInnermost
    {count : Nat}
    {frames : List Frame}
    (classes : ClassBlocks count frames)
    {found : Nat}
    (deep : count ≤ found) :
    ClassBlocks count (beginInnermost found frames) where
  inPlace := classes.inPlace.beginInnermost (classes.length.trans_le deep)
  kinds := by
    cases frames with
    | nil =>
        exact classes.kinds
    | cons frame outer =>
        obtain ⟨own, others⟩ := List.forall_mem_cons.mp classes.kinds
        exact List.forall_mem_cons.mpr ⟨own, others⟩
  length := (length_beginInnermost found frames).trans classes.length

/-- A declaration leaves the inner classes around it open. -/
theorem ClassBlocks.dropToClass_eq
    {count : Nat}
    {frames : List Frame}
    (classes : ClassBlocks count frames)
    {found : Nat}
    (deep : count ≤ found) :
    dropToClass found frames = frames := by
  cases frames with
  | nil =>
      rfl
  | cons frame outer =>
      have left : frame.headerDepth < found := by
        rw [classes.inPlace.1]
        exact Nat.lt_of_lt_of_le (Nat.lt_succ_self _) (classes.length.trans_le deep)
      exact if_pos ⟨classes.kinds frame List.mem_cons_self, left⟩

/-- A plain statement leaves the inner classes around it open. -/
theorem ClassBlocks.closeDeeper_eq
    {count : Nat}
    {frames : List Frame}
    (classes : ClassBlocks count frames)
    {found : Nat}
    (deep : count ≤ found) :
    closeDeeper found frames = frames := by
  cases frames with
  | nil =>
      rfl
  | cons frame outer =>
      refine if_neg fun closes => ?_
      obtain ⟨body, isBody, right⟩ := (Option.any_eq_true _ _).mp closes
      have belongs := classes.inPlace.2.2.1 body isBody
      have deeper : found < body := of_decide_eq_true right
      have length : outer.length + 1 = count := classes.length
      omega

namespace Houses

/-- A declaration at the depth of the inner classes closes everything above them. -/
theorem classBlocks_dropToClass
    {count : Nat}
    {frames : List Frame}
    (housed : Houses count frames) :
    ClassBlocks count (dropToClass count frames) := by
  induction housed with
  | classes classes =>
      rw [classes.dropToClass_eq (Nat.le_refl count)]
      exact classes
  | cons right below inductionHypothesis =>
      rw [dropToClass, if_neg fun stays => absurd stays.2 (Nat.not_lt.mpr right)]
      exact inductionHypothesis

theorem dropToClass
    {count : Nat}
    {frames : List Frame}
    (housed : Houses count frames)
    {found : Nat}
    (deep : count ≤ found) :
    Houses count (dropToClass found frames) := by
  induction housed with
  | classes classes =>
      rw [classes.dropToClass_eq deep]
      exact .classes classes
  | cons right below inductionHypothesis =>
      rw [Indent.dropToClass]
      split
      · exact .cons right below
      · exact inductionHypothesis

theorem closeDeeper
    {count : Nat}
    {frames : List Frame}
    (housed : Houses count frames)
    {found : Nat}
    (deep : count ≤ found) :
    Houses count (closeDeeper found frames) := by
  induction housed with
  | classes classes =>
      rw [classes.closeDeeper_eq deep]
      exact .classes classes
  | cons right below inductionHypothesis =>
      rw [Indent.closeDeeper]
      split
      · exact inductionHypothesis
      · exact .cons right below

theorem beginInnermost
    {count : Nat}
    {frames : List Frame}
    (housed : Houses count frames)
    {found : Nat}
    (deep : count ≤ found) :
    Houses count (beginInnermost found frames) := by
  cases housed with
  | classes classes =>
      exact .classes (classes.beginInnermost deep)
  | cons right below =>
      exact .cons right below

/-- Whatever stands right of inner classes leaves them open. -/
theorem around
    {count : Nat}
    {frames : List Frame}
    (housed : Houses count frames)
    {line : Line}
    (deep : count ≤ line.depth) :
    Houses count (around frames line) := by
  unfold Indent.around
  split
  · exact (housed.dropToClass deep).beginInnermost deep
  · cases waiting : awaitsBody frames with
    | true =>
        rw [enterStatement_of_awaitsBody waiting]
        exact housed.beginInnermost deep
    | false =>
        rw [enterStatement_of_not_awaitsBody waiting]
        exact housed.closeDeeper deep

theorem inside
    {count : Nat}
    {frames : List Frame}
    (housed : Houses count frames)
    {line : Line}
    (deep : count ≤ line.depth) :
    Houses count (inside frames line) := by
  unfold Indent.inside
  split
  · exact .cons deep (housed.around deep)
  · exact housed.around deep

/-- What belongs at class scope stands below nothing but the inner classes around it. -/
theorem classBlocks_around
    {frames : List Frame}
    {line : Line}
    (housed : Houses line.depth frames)
    (snaps : snapsToClass line = true) :
    ClassBlocks line.depth (Indent.around frames line) := by
  rw [Indent.around, if_pos snaps]
  exact housed.classBlocks_dropToClass.beginInnermost (Nat.le_refl _)

/-- Below the header of one more inner class there is one more block in place. -/
theorem inside_innerClass
    {frames : List Frame}
    {line : Line}
    (housed : Houses line.depth frames)
    (opens : line.opens = true)
    (innerClass : frameKindOf line = .innerClass) :
    Houses (line.depth + 1) (Indent.inside frames line) := by
  have snaps : snapsToClass line = true := by
    unfold frameKindOf at innerClass
    unfold snapsToClass
    split at innerClass
    · cases innerClass
    · split at innerClass
      · rename_i header
        rw [header, Bool.or_true]
      · cases innerClass
  have classes := housed.classBlocks_around snaps
  rw [Indent.inside, if_pos opens]
  refine .classes ⟨?_, ?_, congrArg (· + 1) classes.length⟩
  · have depth := classes.inPlace.bodyDepthOf_eq
    refine ⟨classes.length.symm, congrArg (· + 1) depth, ?_, classes.inPlace⟩
    intro body isBody
    cases isBody
  · exact List.forall_mem_cons.mpr ⟨innerClass, classes.kinds⟩

end Houses

theorem openHeaders_concat
    (lines : List Line)
    (line : Line) :
    openHeaders (lines ++ [line]) = headersBelow (openHeaders lines) line := by
  simp [openHeaders]

/-- Inner classes all of which stand left of a depth are no more than that depth. -/
theorem AreClasses.length_le
    {headers : List Line}
    (classes : AreClasses headers)
    {depth : Nat}
    (left : ∀ header ∈ headers, header.depth < depth) :
    headers.length ≤ depth := by
  cases headers with
  | nil =>
      exact Nat.zero_le depth
  | cons header outer =>
      rw [List.length_cons, ← classes.2.1]
      exact left header List.mem_cons_self

/-- Inner classes that whitespace has open are open, in place, whatever was moved above. -/
theorem houses_of_openHeaders
    (lines : List Line)
    {headers : List Line}
    (areOpen : headers.Sublist (openHeaders lines))
    (classes : AreClasses headers) :
    Houses headers.length (Progress.belowAll ⟨[], 0⟩ lines).frames := by
  induction lines using List.reverseRecOn generalizing headers with
  | nil =>
      rw [List.sublist_nil.mp areOpen]
      exact .classes .nil
  | append_singleton lines line inductionHypothesis =>
      have step : Progress.belowAll ⟨[], 0⟩ (lines ++ [line]) =
          (Progress.belowAll ⟨[], 0⟩ lines).below line :=
        Progress.belowAll_append _ lines [line]
      rw [openHeaders_concat] at areOpen
      rw [step, Progress.below]
      unfold headersBelow at areOpen
      split
      · rename_i statement
        rw [if_pos statement] at areOpen
        -- The headers left of the statement were open above it, and it closes none of them.
        have ofLeft {others : List Line}
            (areLeft : others.Sublist ((openHeaders lines).filter (·.depth < line.depth)))
            (areClasses : AreClasses others) :
            others.length ≤ line.depth ∧
              Houses others.length (Progress.belowAll ⟨[], 0⟩ lines).frames := by
          refine ⟨areClasses.length_le fun header member => ?_,
            inductionHypothesis (areLeft.trans List.filter_sublist) areClasses⟩
          exact of_decide_eq_true (List.mem_filter.mp (areLeft.subset member)).2
        have closing
            (areLeft : headers.Sublist ((openHeaders lines).filter (·.depth < line.depth))) :
            Houses headers.length
              (inside (Progress.belowAll ⟨[], 0⟩ lines).frames line) := by
          obtain ⟨deep, housed⟩ := ofLeft areLeft classes
          exact housed.inside deep
        split at areOpen
        · rename_i opens
          rcases List.sublist_cons_iff.mp areOpen with areLeft | ⟨outer, rfl, areLeft⟩
          · exact closing areLeft
          · obtain ⟨innerClass, depth, outerClasses⟩ := classes
            have housed := (ofLeft areLeft outerClasses).2
            rw [← depth] at housed
            rw [List.length_cons, ← depth]
            exact housed.inside_innerClass opens innerClass
        · exact closing areOpen
      · rename_i noStatement
        rw [if_neg noStatement] at areOpen
        exact inductionHypothesis areOpen classes

/-! ## In the body of a method -/

/-- The open blocks below a statement that stands in the body of a method found at a depth. -/
structure InBody
    (depth : Nat)
    (frames : List Frame)
    (last : Line) :
    Prop where
  inPlace : InPlace frames
  begun : OuterBegun frames
  length : frames.length = last.depth + if last.opens then 1 else 0
  awaits : awaitsBody frames = last.opens
  method : ∃ frame ∈ frames, frame.kind = .method ∧ frame.headerDepth = depth

/-- A statement of a body around which the blocks are in place has the blocks of the body below it. -/
theorem InBody.of_around
    {depth : Nat}
    {frames : List Frame}
    {line : Line}
    (begun : OuterBegun frames)
    (inPlace : InPlace (around frames line))
    (length : (around frames line).length = line.depth)
    (method : ∃ frame ∈ inside frames line, frame.kind = .method ∧ frame.headerDepth = depth) :
    InBody depth (inside frames line) line where
  inPlace := inPlace.inside length.symm
  begun := begun.inside line
  length := by
    rw [length_inside, length]
  awaits := begun.awaitsBody_inside line
  method := method

/-- Below the header of a method at class scope the open blocks are those of its body. -/
theorem inBody_of_opensMethod
    {above : List Line}
    {header : Line}
    (opensMethod : OpensMethod above header) :
    InBody header.depth (inside (Progress.belowAll ⟨[], 0⟩ above).frames header) header := by
  have housed := houses_of_openHeaders above List.filter_sublist opensMethod.classes
  have sameDepth := opensMethod.depth
  unfold headersAround at sameDepth
  rw [← sameDepth] at housed
  have snaps : snapsToClass header = true := by
    rw [snapsToClass, opensMethod.method, Bool.or_true, Bool.true_or]
  have classes := housed.classBlocks_around snaps
  have begun : OuterBegun (Progress.belowAll ⟨[], 0⟩ above).frames := by
    refine Progress.belowAll_of_inside OuterBegun (fun _ line begun => begun.inside line) ?_ above
    intro frame member
    cases member
  refine .of_around begun classes.inPlace classes.length ?_
  rw [inside, if_pos opensMethod.opens]
  exact ⟨_, List.mem_cons_self, if_pos opensMethod.method, rfl⟩

namespace InBody

/-- A plain statement that nests below the last one has the blocks around it in place. -/
theorem around
    {depth : Nat}
    {frames : List Frame}
    {last line : Line}
    (inBody : InBody depth frames last)
    (nests : NestsBelow last line)
    (plain : snapsToClass line = false) :
    InPlace (around frames line) ∧ (Indent.around frames line).length = line.depth := by
  have length := inBody.length
  have awaits := inBody.awaits
  rw [Indent.around, plain, if_neg Bool.false_ne_true]
  unfold NestsBelow at nests
  cases opens : last.opens with
  | true =>
      rw [opens, if_pos rfl] at length nests
      rw [opens] at awaits
      rw [enterStatement_of_awaitsBody awaits, length_beginInnermost, length, nests]
      exact ⟨inBody.inPlace.beginInnermost length.le, rfl⟩
  | false =>
      rw [opens, if_neg Bool.false_ne_true] at length nests
      rw [opens] at awaits
      rw [enterStatement_of_not_awaitsBody awaits]
      have allBegun := inBody.begun.forall_begun awaits
      refine ⟨inBody.inPlace.of_suffix (closeDeeper_suffix _ _), ?_⟩
      rw [inBody.inPlace.length_closeDeeper allBegun, length]
      omega

/-- Right of the header of its method, a statement stands in the body of the method. -/
theorem method_around
    {depth : Nat}
    {frames : List Frame}
    {last line : Line}
    (inBody : InBody depth frames last)
    (plain : snapsToClass line = false)
    (deeper : depth < line.depth) :
    ∃ frame ∈ Indent.around frames line, frame.kind = .method ∧ frame.headerDepth = depth := by
  obtain ⟨frame, member, kind, headerDepth⟩ := inBody.method
  rw [Indent.around, plain, if_neg Bool.false_ne_true]
  cases waiting : awaitsBody frames with
  | true =>
      rw [enterStatement_of_awaitsBody waiting]
      cases frames with
      | nil =>
          cases member
      | cons first outer =>
          rcases List.mem_cons.mp member with rfl | inOuter
          · exact ⟨_, List.mem_cons_self, kind, headerDepth⟩
          · exact ⟨frame, List.mem_cons_of_mem _ inOuter, kind, headerDepth⟩
  | false =>
      rw [enterStatement_of_not_awaitsBody waiting]
      have left : frame.headerDepth < line.depth := headerDepth.trans_lt deeper
      exact ⟨frame, inBody.inPlace.mem_closeDeeper member left, kind, headerDepth⟩

/-- One more statement of the body has the blocks below it in place. -/
theorem inside
    {depth : Nat}
    {frames : List Frame}
    {last line : Line}
    (inBody : InBody depth frames last)
    (nests : NestsBelow last line)
    (plain : snapsToClass line = false)
    (deeper : depth < line.depth) :
    InBody depth (inside frames line) line := by
  obtain ⟨inPlace, length⟩ := inBody.around nests plain
  refine .of_around inBody.begun inPlace length ?_
  obtain ⟨frame, member, isMethod⟩ := inBody.method_around plain deeper
  refine ⟨frame, ?_, isMethod⟩
  unfold Indent.inside
  split
  · exact List.mem_cons_of_mem _ member
  · exact member

/-- Below a whole stretch of the body the open blocks are in place. -/
theorem belowAll
    {depth : Nat}
    {progress : Progress}
    {last : Line}
    (inBody : InBody depth progress.frames last)
    {body : List Line}
    (nests : (last :: body.filter (·.isStatement)).IsChain NestsBelow)
    (plain : ∀ line ∈ body, line.isStatement = true → snapsToClass line = false)
    (deeper : ∀ line ∈ body, line.isStatement = true → depth < line.depth) :
    InBody depth (progress.belowAll body).frames ((lastStatement? body).getD last) := by
  induction body generalizing progress last with
  | nil =>
      exact inBody
  | cons line rest inductionHypothesis =>
      obtain ⟨ownPlain, restPlain⟩ := List.forall_mem_cons.mp plain
      obtain ⟨ownDeeper, restDeeper⟩ := List.forall_mem_cons.mp deeper
      have step : progress.belowAll (line :: rest) = (progress.below line).belowAll rest := rfl
      rw [step, ← List.singleton_append, lastStatement?_append]
      cases statement : line.isStatement with
      | false =>
          have none : lastStatement? [line] = none := by
            simp [lastStatement?, statement]
          rw [List.filter_cons_of_neg (by simp [statement])] at nests
          rw [progress.below_of_not_isStatement statement, none, Option.or_none]
          exact inductionHypothesis inBody nests restPlain restDeeper
      | true =>
          have some : lastStatement? [line] = some line := by
            simp [lastStatement?, statement]
          rw [List.filter_cons_of_pos statement, List.isChain_cons_cons] at nests
          have below := inBody.inside nests.1 (ownPlain statement) (ownDeeper statement)
          rw [← progress.frames_below statement] at below
          rw [some, Option.getD_or, Option.getD_some]
          exact inductionHypothesis below nests.2 restPlain restDeeper

end InBody

end Indent

end ScriptUplift
