import Mathlib.Tactic.Common
import ScriptUplift.Proofs.StandingLines

namespace ScriptUplift

/-!
# What a run takes in

A run takes in the lines that extend it and the comments and blank lines between
them.  It ends where no statement goes on, and the next statement does not
extend it.  In a file in repair all its statements are plain: no declaration and
no header extends a run, and around the statement below a run nothing is open.
-/

/-- A run takes in lines that extend it, and the comments and blank lines between them. -/
def Line.isTakenIn
    (line : Line) :
    Bool :=
  line.joinsRun || !line.continues && line.category.isTrivia

theorem isTakenIn_of_mem_take_runReach
    {rest : List Tracked}
    {tracked : Tracked}
    (member : tracked ∈ rest.take (runReach rest)) :
    tracked.line.isTakenIn = true := by
  induction rest with
  | nil =>
      cases member
  | cons first others inductionHypothesis =>
      unfold Line.isTakenIn
      rw [runReach] at member
      split at member
      · rename_i trivia
        split at member
        · cases member
        · rename_i reach reaches
          rw [List.take_succ_cons] at member
          rcases List.mem_cons.mp member with rfl | inRest
          · rw [trivia, Bool.or_true]
          · exact inductionHypothesis (reaches ▸ inRest)
      · split at member
        · rename_i joins
          rw [List.take_succ_cons] at member
          rcases List.mem_cons.mp member with rfl | inRest
          · rw [joins, Bool.true_or]
          · exact inductionHypothesis inRest
        · cases member

namespace Segment

/-- What marking changes in no line that a run can take in is seen in the stretches as in the file. -/
theorem map_view_cut
    {β : Type}
    (view : Tracked → β)
    (taken : Nat)
    {seeds : List Tracked}
    (unmarked : ∀ seed ∈ seeds, seed.line.isTakenIn = true → view seed.markOrphan = view seed) :
    ((cut taken seeds).flatMap (·.members)).map view = (seeds.drop taken).map view := by
  fun_induction cut taken seeds with
  | case1 taken =>
      simp
  | case2 tracked rest leads reach inductionHypothesis =>
      obtain ⟨own, others⟩ := List.forall_mem_cons.mp unmarked
      have ownTaken : tracked.line.isTakenIn = true := by
        simp [Line.isTakenIn, Line.joinsRun, leads]
      have members : (rest.take reach).map (view ·.markOrphan) = (rest.take reach).map view :=
        List.map_congr_left fun member isMember =>
          others member (List.mem_of_mem_take isMember) (isTakenIn_of_mem_take_runReach isMember)
      rw [List.flatMap_cons, List.map_append, inductionHypothesis others, Segment.members,
        List.map_map, List.map_cons, Function.comp_apply, own ownTaken, List.drop_zero,
        List.map_cons, List.cons_append]
      have both := congrArg (· ++ (rest.drop reach).map view) members
      rw [← List.map_append, List.take_append_drop] at both
      exact congrArg (view tracked :: ·) both
  | case3 tracked rest stays inductionHypothesis =>
      rw [List.flatMap_cons, List.map_append,
        inductionHypothesis (List.forall_mem_cons.mp unmarked).2]
      rfl
  | case4 taken tracked rest inductionHypothesis =>
      exact inductionHypothesis (List.forall_mem_cons.mp unmarked).2

end Segment

/-- Below a run no statement goes on, and the next one does not extend the run. -/
theorem ends_drop_runReach
    (rest : List Tracked) :
    (∀ first ∈ (rest.drop (runReach rest)).head?, first.line.continues = false) ∧
      ∀ next ∈ (rest.drop (runReach rest)).find? (·.line.isStatement),
        next.line.joinsRun = false := by
  induction rest with
  | nil =>
      simp
  | cons first others inductionHypothesis =>
      rw [runReach]
      split
      · rename_i trivia
        obtain ⟨starts, isTrivia⟩ : first.line.continues = false ∧
            first.line.category.isTrivia = true := by
          simpa using trivia
        split
        · rename_i nothing
          rw [nothing, List.drop_zero] at inductionHypothesis
          have noStatement : first.line.isStatement = false := by
            simp [Line.isStatement, isTrivia]
          rw [List.drop_zero, List.find?_cons_of_neg (by simp [noStatement])]
          refine ⟨?_, inductionHypothesis.2⟩
          rintro _ ⟨⟩
          exact starts
        · rename_i reach reaches
          rw [reaches] at inductionHypothesis
          exact inductionHypothesis
      · rename_i noTrivia
        split
        · exact inductionHypothesis
        · rename_i apart
          have joinsNot : first.line.joinsRun = false := Bool.eq_false_iff.mpr apart
          have starts : first.line.continues = false := by
            rw [Line.joinsRun, Bool.or_assoc, Bool.or_eq_false_iff] at joinsNot
            exact joinsNot.1
          have statement : first.line.isStatement = true := by
            simpa [Line.isStatement, starts] using noTrivia
          have isNext : (first :: others).find? (·.line.isStatement) = some first := by
            rw [List.find?_cons, statement]
          rw [List.drop_zero, isNext]
          refine ⟨?_, ?_⟩
          · rintro _ ⟨⟩
            exact starts
          · rintro _ ⟨⟩
            exact joinsNot

namespace Segment

/-- The lines that belong to the run above are passed over. -/
theorem cut_eq_cut_drop
    (taken : Nat)
    (seeds : List Tracked) :
    cut taken seeds = cut 0 (seeds.drop taken) := by
  induction seeds generalizing taken with
  | nil =>
      rw [List.drop_nil, cut, cut]
  | cons first rest inductionHypothesis =>
      cases taken with
      | zero =>
          rfl
      | succ count =>
          rw [cut, List.drop_succ_cons, inductionHypothesis]

end Segment

/-- A run of a file: a stranded statement and what it takes in, above lines that it does not. -/
structure IsRun
    (lead : Line)
    (members below : List Line) :
    Prop where
  leads : lead.leadsIn = true
  takenIn : ∀ line ∈ members, line.isTakenIn = true
  closed : ∀ first ∈ below.head?, first.continues = false
  apart : ∀ next ∈ below.find? (·.isStatement), next.joinsRun = false

/-- What the cut of a file takes for a run is one. -/
theorem isRun_of_leadsIn
    {lead : Line}
    (leads : lead.leadsIn = true)
    (rest : List Line) :
    let reach := runReach (rest.map seedLine)
    IsRun lead (rest.take reach) (rest.drop reach) := by
  intro reach
  obtain ⟨closed, apart⟩ := ends_drop_runReach (rest.map seedLine)
  rw [← List.map_drop] at closed apart
  constructor
  · exact leads
  · intro line member
    have taken : seedLine line ∈ (rest.map seedLine).take reach := by
      rw [← List.map_take]
      exact List.mem_map_of_mem member
    exact isTakenIn_of_mem_take_runReach taken
  · intro first isFirst
    rw [List.head?_map] at closed
    exact closed (seedLine first) (Option.mem_map_of_mem seedLine isFirst)
  · intro next isNext
    rw [List.find?_map] at apart
    exact apart (seedLine next) (Option.mem_map_of_mem seedLine isNext)

namespace Indent

/-- Whether nothing but blocks outside of methods and inner classes is open. -/
def AllControl
    (frames : List Frame) :
    Prop :=
  ∀ frame ∈ frames, frame.kind = .control

theorem AllControl.beginInnermost
    {frames : List Frame}
    (control : AllControl frames)
    (found : Nat) :
    AllControl (beginInnermost found frames) := by
  cases frames with
  | nil =>
      exact control
  | cons frame outer =>
      obtain ⟨own, others⟩ := List.forall_mem_cons.mp control
      exact List.forall_mem_cons.mpr ⟨own, others⟩

theorem AllControl.around
    {frames : List Frame}
    (control : AllControl frames)
    {line : Line}
    (plain : snapsToClass line = false) :
    AllControl (around frames line) := by
  rw [Indent.around, plain, if_neg Bool.false_ne_true]
  cases waiting : awaitsBody frames with
  | true =>
      rw [enterStatement_of_awaitsBody waiting]
      exact control.beginInnermost line.depth
  | false =>
      rw [enterStatement_of_not_awaitsBody waiting]
      exact fun frame member => control frame ((closeDeeper_suffix line.depth frames).subset member)

/-- A plain statement opens nothing but a block. -/
theorem AllControl.inside
    {frames : List Frame}
    {line : Line}
    (control : AllControl (Indent.around frames line))
    (plain : snapsToClass line = false) :
    AllControl (inside frames line) := by
  have kind : frameKindOf line = .control := by
    by_contra opensClassScope
    rw [snapsToClass_of_frameKindOf opensClassScope] at plain
    cases plain
  unfold Indent.inside
  split
  · exact List.forall_mem_cons.mpr ⟨kind, control⟩
  · exact control

/-- What belongs at class scope closes all blocks that no inner class is around. -/
theorem AllControl.enterDeclaration_eq_nil
    {frames : List Frame}
    (control : AllControl frames)
    (found : Nat) :
    enterDeclaration frames found = [] := by
  have closesAll : dropToClass found frames = [] := by
    induction frames with
    | nil =>
        rfl
    | cons frame outer inductionHypothesis =>
        obtain ⟨own, others⟩ := List.forall_mem_cons.mp control
        rw [dropToClass, if_neg (by simp [own]), inductionHypothesis others]
  rw [enterDeclaration, closesAll]
  rfl

/-- Inside of a block that no method is around the scope is that of the block. -/
theorem AllControl.scopeOf_eq_block
    {frames : List Frame}
    (control : AllControl frames)
    (someOpen : frames ≠ []) :
    scopeOf frames = .block := by
  have noMethod : frames.any (·.kind == .method) = false := by
    rw [List.any_eq_false]
    intro frame member
    rw [control frame member]
    decide
  have someControl : frames.any (·.kind == .control) = true := by
    obtain ⟨frame, member⟩ := List.exists_mem_of_ne_nil frames someOpen
    exact List.any_eq_true.mpr ⟨frame, member, by rw [control frame member]; rfl⟩
  rw [scopeOf, noMethod, if_neg Bool.false_ne_true, if_pos someControl]

namespace Standing

variable
  {border : Border}
  {line : Line}
  {rest : List Line}

/-- A statement that a run takes in extends it. -/
theorem snapsToClass_of_isTakenIn
    (standing : Standing border (line :: rest))
    (sound : border.Sound)
    (statement : line.isStatement = true)
    (takenIn : line.isTakenIn = true) :
    snapsToClass line = false := by
  refine standing.snapsToClass_of_joinsRun sound statement ?_
  simpa [Line.isTakenIn, Line.isTrivia_of_isStatement statement] using takenIn

/-- Below the lead of a run nothing but a block is open. -/
theorem allControl_of_leadsIn
    (standing : Standing border (line :: rest))
    (sound : border.Sound)
    (leads : line.leadsIn = true) :
    AllControl (border.below line).frames := by
  rw [border.frames_below_of_isStatement (Line.isStatement_of_leadsIn leads)]
  refine AllControl.inside ?_ (Line.snapsToClass_of_leadsIn leads)
  rw [(standing.margin_of_leadsIn sound leads).1]
  exact fun _ member => absurd member List.not_mem_nil

/-- Below a line that a run takes in nothing but blocks are open. -/
theorem allControl_of_isTakenIn
    (standing : Standing border (line :: rest))
    (sound : border.Sound)
    (control : AllControl border.frames)
    (takenIn : line.isTakenIn = true) :
    AllControl (border.below line).frames := by
  cases statement : line.isStatement with
  | false =>
      rw [(border.below_of_not_isStatement statement).2]
      exact control
  | true =>
      have plain := standing.snapsToClass_of_isTakenIn sound statement takenIn
      rw [border.frames_below_of_isStatement statement]
      exact (control.around plain).inside plain

/-- Around a statement that does not extend the run above it nothing is open. -/
theorem around_eq_nil_of_apart
    (standing : Standing border (line :: rest))
    (sound : border.Sound)
    (control : AllControl border.frames)
    (statement : line.isStatement = true)
    (apart : line.joinsRun = false) :
    around border.frames line = [] := by
  cases snaps : snapsToClass line with
  | true =>
      rw [around, if_pos snaps]
      exact control.enterDeclaration_eq_nil line.depth
  | false =>
      by_contra someOpen
      have scope := (control.around snaps).scopeOf_eq_block someOpen
      rw [← (standing.stands sound statement).scope] at scope
      simp [Line.joinsRun, scope] at apart

/-- Below a run nothing but blocks are open. -/
theorem allControl_belowAll
    {members below : List Line}
    (standing : Standing border (members ++ below))
    (sound : border.Sound)
    (control : AllControl border.frames)
    (takenIn : ∀ member ∈ members, member.isTakenIn = true) :
    AllControl (border.belowAll members).frames := by
  induction members generalizing border with
  | nil =>
      exact control
  | cons first others inductionHypothesis =>
      obtain ⟨own, othersTaken⟩ := List.forall_mem_cons.mp takenIn
      obtain ⟨standingBelow, soundBelow⟩ := Standing.below standing sound
      exact inductionHypothesis standingBelow soundBelow
        (Standing.allControl_of_isTakenIn standing sound control own) othersTaken

/-- Around the next statement of lines below which nothing but blocks are open, if it is apart, nothing is. -/
theorem around_eq_nil_of_find?
    {lines : List Line}
    (standing : Standing border lines)
    (sound : border.Sound)
    (control : AllControl border.frames)
    {next : Line}
    (isNext : next ∈ lines.find? (·.isStatement))
    (apart : next.joinsRun = false) :
    around border.frames next = [] := by
  induction lines generalizing border with
  | nil =>
      cases isNext
  | cons first others inductionHypothesis =>
      cases statement : first.isStatement with
      | true =>
          rw [List.find?_cons_of_pos statement] at isNext
          obtain rfl := Option.some.inj isNext
          exact standing.around_eq_nil_of_apart sound control statement apart
      | false =>
          rw [List.find?_cons_of_neg (by simp [statement])] at isNext
          obtain ⟨standingBelow, soundBelow⟩ := standing.below sound
          have sameFrames := (border.below_of_not_isStatement statement).2
          rw [← sameFrames] at control ⊢
          exact inductionHypothesis standingBelow soundBelow control isNext

end Standing

end Indent

end ScriptUplift
