import Mathlib.Data.List.Induction
import Mathlib.Tactic.Common
import ScriptUplift.Proofs.Knowledge

namespace ScriptUplift

/-!
# Reading stretches of lines

What is known about a line depends on the lines above it through two values
only: what they leave open and the last statement among them.  A stretch that
leaves nothing open and whose last statement neither opens a block nor holds
annotations only is at rest.  Stretches at rest can be read apart from each
other, and a stretch that is read as it stands stays so below any other stretch
at rest, as long as it begins with a declaration under its annotations.
-/

namespace Carry

theorem isNeutral_iff
    (carry : Carry) :
    carry.isNeutral = true ↔ carry = .neutral := by
  obtain ⟨openString, brackets, backslash⟩ := carry
  simp [isNeutral, neutral, and_assoc]

/-- What is open after reading texts one after another. -/
def through : Carry → List Text → Carry
  | carry, [] =>
      carry
  | carry, text :: rest =>
      through (carry.after (Scan.line carry.openString text)) rest

theorem through_append
    (carry : Carry)
    (first second : List Text) :
    carry.through (first ++ second) = (carry.through first).through second := by
  induction first generalizing carry with
  | nil =>
      rfl
  | cons text rest inductionHypothesis =>
      exact inductionHypothesis _

end Carry

namespace Context

/-- The context below a line that is known. -/
def below
    (context : Context)
    (line : Line) :
    Context :=
  if line.isStatement then
    { context with
      previous := line.category
      previousOpens := line.opens
      previousAnnotationOnly := line.annotationOnly }
  else
    context

/-- The context below lines that are known. -/
def belowAll
    (context : Context)
    (lines : List Line) :
    Context :=
  lines.foldl below context

/-- Nothing above a line bears on the declaration it holds. -/
structure AtRest
    (context : Context) :
    Prop where
  opensNothing : context.previousOpens = false
  noAnnotation : context.previousAnnotationOnly = false

end Context

/-- Read lines in a context, with something left open above them. -/
def readLines
    (carry : Carry)
    (context : Context)
    (lines : List Line) :
    List Line :=
  classifyLines context (lines.zip (Reading.lines carry (lines.map (·.text))))

@[simp] theorem length_readLines
    (carry : Carry)
    (context : Context)
    (lines : List Line) :
    (readLines carry context lines).length = lines.length := by
  have same := congrArg List.length (classifyLines_identity context
    (lines.zip (Reading.lines carry (lines.map (·.text)))))
  simpa [readLines] using same

/-- Whether the statement that starts with the first of these lines opens a block. -/
def leadsBlock
    (carry : Carry)
    (lines : List Line) :
    Bool :=
  statementOpens (lines.zip (Reading.lines carry (lines.map (·.text))))

/-- Whether a statement opens a block is seen before lines end at which nothing is open. -/
theorem leadsBlock_append
    {carry : Carry}
    {first : List Line}
    (notEmpty : first ≠ [])
    (closed : carry.through (first.map (·.text)) = .neutral)
    (second : List Line) :
    leadsBlock carry (first ++ second) = leadsBlock carry first := by
  unfold leadsBlock
  induction first generalizing carry with
  | nil =>
      exact absurd rfl notEmpty
  | cons line rest inductionHypothesis =>
      simp only [List.cons_append, List.map_cons, Reading.lines, List.zip_cons_cons,
        statementOpens]
      split
      · rfl
      · rename_i unfinished
        have someRest : rest ≠ [] := by
          rintro rfl
          exact unfinished ((Carry.isNeutral_iff _).mpr closed)
        exact inductionHypothesis someRest closed

/-- A line as it is read in a context, told whether its statement opens a block. -/
def Line.readIn
    (line : Line)
    (carry : Carry)
    (context : Context)
    (opens : Bool) :
    Line :=
  let found := if carry.isNeutral then classify context line.text else (.other, false)
  { line with
    depth := context.unit.depth line.text
    category := found.1
    continues := !carry.isNeutral
    inString := carry.openString.isSome
    opens := carry.isNeutral && !found.1.isTrivia && opens
    annotationOnly := found.2 }

/-- A line that is read as a statement is read with nothing open above it. -/
theorem Line.isNeutral_of_isStatement
    {line : Line}
    {carry : Carry}
    {context : Context}
    {opens : Bool}
    (known : line.readIn carry context opens = line)
    (statement : line.isStatement = true) :
    carry.isNeutral = true := by
  rw [← known] at statement
  simp only [isStatement, readIn, Bool.not_not, Bool.and_eq_true] at statement
  exact statement.1

/-- Reading goes line by line; each line hands on what it leaves open and its statement. -/
theorem readLines_cons
    (carry : Carry)
    (context : Context)
    (line : Line)
    (rest : List Line) :
    readLines carry context (line :: rest) =
      line.readIn carry context (leadsBlock carry (line :: rest)) ::
        readLines (carry.after (Scan.line carry.openString line.text))
          (context.below (line.readIn carry context (leadsBlock carry (line :: rest)))) rest := by
  unfold readLines leadsBlock Line.readIn Context.below
  simp only [List.map_cons, Reading.lines, List.zip_cons_cons, classifyLines, Reading.continues,
    Reading.inString, Line.isStatement]
  by_cases neutral : carry.isNeutral = true
  · by_cases trivia : (classify context line.text).1.isTrivia = true
    · simp [neutral, trivia]
    · simp [neutral, trivia]
  · simp [neutral]

/-- Lines at whose end nothing is open are read apart from the lines below them. -/
theorem readLines_append
    {carry : Carry}
    {first : List Line}
    (closed : carry.through (first.map (·.text)) = .neutral)
    (context : Context)
    (second : List Line) :
    readLines carry context (first ++ second) =
      readLines carry context first ++
        readLines .neutral (context.belowAll (readLines carry context first)) second := by
  induction first generalizing carry context with
  | nil =>
      have nothing : carry = .neutral := closed
      rw [nothing]
      rfl
  | cons line rest inductionHypothesis =>
      rw [List.cons_append, readLines_cons, readLines_cons, ← List.cons_append,
        leadsBlock_append (List.cons_ne_nil line rest) closed, inductionHypothesis closed]
      rfl

/-- The lines below others are read in some context, with what the others leave open. -/
theorem exists_drop_readLines
    (carry : Carry)
    (context : Context)
    (first second : List Line) :
    ∃ next,
      (readLines carry context (first ++ second)).drop first.length =
        readLines (carry.through (first.map (·.text))) next second := by
  induction first generalizing carry context with
  | nil =>
      exact ⟨context, rfl⟩
  | cons line rest inductionHypothesis =>
      rw [List.cons_append, readLines_cons]
      exact inductionHypothesis _ _

/-- Nothing is open above a line that continues nothing. -/
theorem closed_of_starts
    {context : Context}
    {above below : List Line}
    {line : Line}
    (reads : readLines .neutral context (above ++ line :: below) = above ++ line :: below)
    (starts : line.continues = false) :
    Carry.neutral.through (above.map (·.text)) = .neutral := by
  obtain ⟨next, dropped⟩ := exists_drop_readLines .neutral context above (line :: below)
  rw [reads, List.drop_left, readLines_cons, List.cons.injEq] at dropped
  rw [dropped.1] at starts
  rw [← Carry.isNeutral_iff]
  simpa [Line.readIn] using starts

theorem Context.unit_below
    (context : Context)
    (line : Line) :
    (context.below line).unit = context.unit := by
  unfold below
  split <;> rfl

theorem Context.unit_belowAll
    (context : Context)
    (lines : List Line) :
    (context.belowAll lines).unit = context.unit := by
  unfold belowAll
  induction lines generalizing context with
  | nil =>
      rfl
  | cons line rest inductionHypothesis =>
      rw [List.foldl_cons, inductionHypothesis, unit_below]

/-- The last line that starts a statement. -/
def lastStatement?
    (lines : List Line) :
    Option Line :=
  (lines.filter (·.isStatement)).getLast?

/-- Only the last statement of lines is seen below them. -/
theorem Context.belowAll_eq
    (context : Context)
    (lines : List Line) :
    context.belowAll lines = (lastStatement? lines).elim context context.below := by
  induction lines using List.reverseRecOn with
  | nil =>
      rfl
  | append_singleton above line inductionHypothesis =>
      have step : context.belowAll (above ++ [line]) = (context.belowAll above).below line := by
        simp [belowAll]
      have sameUnit := context.unit_belowAll above
      rw [step]
      unfold lastStatement?
      by_cases statement : line.isStatement = true
      · simp [statement, below, sameUnit]
      · simpa [statement, below, lastStatement?] using inductionHypothesis

/-- Lines after which nothing is open and nothing is expected. -/
structure Rests
    (lines : List Line) :
    Prop where
  closed : Carry.neutral.through (lines.map (·.text)) = .neutral
  opensNothing : ∀ line ∈ lastStatement? lines, line.opens = false
  noAnnotation : ∀ line ∈ lastStatement? lines, line.annotationOnly = false

instance (lines : List Line) : Decidable (Rests lines) :=
  decidable_of_iff
    (Carry.neutral.through (lines.map (·.text)) = .neutral ∧
      (∀ line ∈ lastStatement? lines, line.opens = false) ∧
      ∀ line ∈ lastStatement? lines, line.annotationOnly = false)
    ⟨fun facts => ⟨facts.1, facts.2.1, facts.2.2⟩,
      fun rests => ⟨rests.closed, rests.opensNothing, rests.noAnnotation⟩⟩

theorem Context.AtRest.belowAll
    {context : Context}
    (atRest : context.AtRest)
    {lines : List Line}
    (rests : Rests lines) :
    (context.belowAll lines).AtRest := by
  rw [Context.belowAll_eq]
  cases last : lastStatement? lines with
  | none =>
      exact atRest
  | some line =>
      have statement : line.isStatement = true := by
        have among := List.mem_of_getLast? last
        exact (List.mem_filter.mp among).2
      constructor
      · simpa [Context.below, statement] using rests.opensNothing line last
      · simpa [Context.below, statement] using rests.noAnnotation line last

theorem lastStatement?_append
    (first second : List Line) :
    lastStatement? (first ++ second) = (lastStatement? second).or (lastStatement? first) := by
  simp [lastStatement?, List.getLast?_append]

theorem Rests.append
    {first second : List Line}
    (firstRests : Rests first)
    (secondRests : Rests second) :
    Rests (first ++ second) := by
  have lastOf {line : Line} (last : line ∈ lastStatement? (first ++ second)) :
      line ∈ lastStatement? first ∨ line ∈ lastStatement? second := by
    rw [lastStatement?_append, Option.mem_def, Option.or_eq_some_iff] at last
    exact last.symm.imp (·.2) id
  constructor
  · rw [List.map_append, Carry.through_append, firstRests.closed]
    exact secondRests.closed
  · intro line last
    exact (lastOf last).elim (firstRests.opensNothing line) (secondRests.opensNothing line)
  · intro line last
    exact (lastOf last).elim (firstRests.noAnnotation line) (secondRests.noAnnotation line)

/-- Lines that leave nothing open and are read in a context as they stand. -/
structure ReadsIn
    (context : Context)
    (lines : List Line) :
    Prop where
  closed : Carry.neutral.through (lines.map (·.text)) = .neutral
  reads : readLines .neutral context lines = lines

/-- Lines that rest and are read in a context as they stand. -/
structure StandsIn
    (context : Context)
    (lines : List Line) :
    Prop where
  rests : Rests lines
  reads : readLines .neutral context lines = lines

/-- Lines that stand in every context at rest. -/
def Steady
    (unit : IndentUnit)
    (lines : List Line) :
    Prop :=
  ∀ context : Context, context.unit = unit → context.AtRest → StandsIn context lines

theorem StandsIn.append
    {context : Context}
    (atRest : context.AtRest)
    {first second : List Line}
    (firstStands : StandsIn context first)
    (secondSteady : Steady context.unit second) :
    StandsIn context (first ++ second) := by
  have secondStands :=
    secondSteady _ (context.unit_belowAll first) (atRest.belowAll firstStands.rests)
  constructor
  · exact firstStands.rests.append secondStands.rests
  · rw [readLines_append firstStands.rests.closed, firstStands.reads, secondStands.reads]

theorem Steady.append
    {unit : IndentUnit}
    {first second : List Line}
    (firstSteady : Steady unit first)
    (secondSteady : Steady unit second) :
    Steady unit (first ++ second) := by
  rintro context rfl atRest
  exact (firstSteady context rfl atRest).append atRest secondSteady

theorem Steady.nil
    (unit : IndentUnit) :
    Steady unit [] :=
  fun _ _ _ => ⟨by decide, rfl⟩

namespace Context

/-- Contexts in which declarations at class scope and annotations are read alike. -/
structure Alike
    (first second : Context) :
    Prop where
  unit : first.unit = second.unit
  opens : first.previousOpens = second.previousOpens
  pending : first.pendingKind = second.pendingKind

theorem AtRest.alike
    {first second : Context}
    (firstAtRest : first.AtRest)
    (secondAtRest : second.AtRest)
    (sameUnit : first.unit = second.unit) :
    first.Alike second where
  unit := sameUnit
  opens := by rw [firstAtRest.opensNothing, secondAtRest.opensNothing]
  pending := by simp [pendingKind, firstAtRest.noAnnotation, secondAtRest.noAnnotation]

/-- A statement hides everything above it but the unit. -/
theorem Alike.below_eq
    {first second : Context}
    (alike : first.Alike second)
    {line : Line}
    (statement : line.isStatement = true) :
    first.below line = second.below line := by
  simp [below, statement, alike.unit]

theorem Alike.below
    {first second : Context}
    (alike : first.Alike second)
    (line : Line) :
    (first.below line).Alike (second.below line) := by
  by_cases statement : line.isStatement = true
  · rw [alike.below_eq statement]
    exact ⟨rfl, rfl, rfl⟩
  · simpa [Context.below, statement] using alike

end Context

/-- At class scope a declaration is read by whether the statement above it opens a block. -/
theorem Category.ofKeywordWithin_congr
    {first second : Context}
    (sameOpens : first.previousOpens = second.previousOpens)
    (kind : AnnotationKind)
    (limit : Nat)
    (code : Text) :
    ofKeywordWithin first 0 kind limit code = ofKeywordWithin second 0 kind limit code := by
  induction limit generalizing code with
  | zero =>
      rfl
  | succ limit inductionHypothesis =>
      simp only [ofKeywordWithin, ofField, Nat.lt_irrefl, decide_false, Bool.false_and,
        Bool.false_eq_true, if_false, sameOpens, inductionHypothesis]

/--
In contexts that are alike, trivia, annotations and lines at class scope are
classified alike.
-/
theorem classify_congr
    {first second : Context}
    (alike : first.Alike second)
    {text : Text}
    (placed :
      (classify first text).1.isTrivia = true ∨ (classify first text).2 = true ∨
        first.unit.depth text = 0) :
    classify second text = classify first text := by
  unfold classify at placed ⊢
  dsimp only at placed ⊢
  split
  · rfl
  · rename_i notBlank
    rw [if_neg notBlank] at placed
    split
    · rfl
    · rename_i someCode
      rw [if_neg someCode] at placed
      split
      · unfold classifyAnnotations
        rw [alike.pending]
      · rename_i declares
        rw [if_neg declares] at placed
        -- Code is never trivia and this branch finds no annotation, so the line is at class scope.
        have atClassScope : first.unit.depth text = 0 := by
          rcases placed with trivia | annotation | atClassScope
          · have code := (Category.ofKeywordWithin_ofCode _ _ _ _ _).2.symm.trans trivia
            exact absurd code Bool.false_ne_true
          · exact absurd annotation Bool.false_ne_true
          · exact atClassScope
        unfold Category.ofKeyword
        rw [← alike.unit, ← alike.pending, atClassScope,
          Category.ofKeywordWithin_congr alike.opens]

/-- Whether a line is read alike in contexts that are alike. -/
def Line.ReadsAlike
    (line : Line) :
    Prop :=
  line.isStatement = true → line.annotationOnly = true ∨ line.depth = 0

theorem Line.readIn_congr
    {first second : Context}
    (alike : first.Alike second)
    {carry : Carry}
    {opens : Bool}
    {line : Line}
    (readsAlike : (line.readIn carry first opens).ReadsAlike) :
    line.readIn carry second opens = line.readIn carry first opens := by
  by_cases neutral : carry.isNeutral = true
  · have placed :
        (classify first line.text).1.isTrivia = true ∨ (classify first line.text).2 = true ∨
          first.unit.depth line.text = 0 := by
      by_cases trivia : (classify first line.text).1.isTrivia = true
      · exact .inl trivia
      · refine .inr ?_
        simpa [ReadsAlike, readIn, isStatement, neutral, trivia] using readsAlike
    simp only [readIn, classify_congr alike placed, alike.unit]
  · simp [readIn, neutral, alike.unit]

/-- Lines that are read alike up to a statement are read as they stand in contexts that are alike. -/
theorem readLines_congr
    {first second : Context}
    (alike : first.Alike second)
    {carry : Carry}
    {lead body : List Line}
    {head : Line}
    (leadReadsAlike : ∀ line ∈ lead, line.ReadsAlike)
    (headReadsAlike : head.ReadsAlike)
    (statement : head.isStatement = true)
    (reads : readLines carry first (lead ++ head :: body) = lead ++ head :: body) :
    readLines carry second (lead ++ head :: body) = lead ++ head :: body := by
  induction lead generalizing carry first second with
  | nil =>
      rw [List.nil_append, readLines_cons, List.cons.injEq] at reads
      obtain ⟨headRead, bodyRead⟩ := reads
      have sameHead : head.readIn carry second (leadsBlock carry (head :: body)) = head := by
        rw [Line.readIn_congr alike (headRead.symm ▸ headReadsAlike), headRead]
      rw [headRead] at bodyRead
      rw [List.nil_append, readLines_cons, sameHead, ← alike.below_eq statement, bodyRead]
  | cons line rest inductionHypothesis =>
      obtain ⟨lineReadsAlike, restReadsAlike⟩ := List.forall_mem_cons.mp leadReadsAlike
      rw [List.cons_append, readLines_cons, List.cons.injEq] at reads
      obtain ⟨lineRead, restRead⟩ := reads
      have sameLine :
          line.readIn carry second (leadsBlock carry (line :: (rest ++ head :: body))) = line := by
        rw [Line.readIn_congr alike (lineRead.symm ▸ lineReadsAlike), lineRead]
      rw [lineRead] at restRead
      rw [List.cons_append, readLines_cons, sameLine,
        inductionHypothesis (alike.below line) restReadsAlike restRead]

/--
Lines that stand in one context at rest are steady when they begin with a
declaration at class scope, with nothing but annotations above it.
-/
theorem StandsIn.steady
    {context : Context}
    (atRest : context.AtRest)
    {lead body : List Line}
    {head : Line}
    (leadReadsAlike : ∀ line ∈ lead, line.ReadsAlike)
    (headReadsAlike : head.ReadsAlike)
    (statement : head.isStatement = true)
    (stands : StandsIn context (lead ++ head :: body)) :
    Steady context.unit (lead ++ head :: body) := by
  intro other sameUnit otherAtRest
  have alike := atRest.alike otherAtRest sameUnit.symm
  exact ⟨stands.rests,
    readLines_congr alike leadReadsAlike headReadsAlike statement stands.reads⟩

/-- Lines are read part by part where nothing is open between the parts. -/
theorem ReadsIn.of_append
    {context : Context}
    {first second : List Line}
    (closed : Carry.neutral.through (first.map (·.text)) = .neutral)
    (reads : readLines .neutral context (first ++ second) = first ++ second) :
    ReadsIn context first ∧
      readLines .neutral (context.belowAll first) second = second := by
  rw [readLines_append closed] at reads
  obtain ⟨firstRead, secondRead⟩ := List.append_inj reads (length_readLines _ _ _)
  rw [firstRead] at secondRead
  exact ⟨⟨closed, firstRead⟩, secondRead⟩

/-- What stands in a context stands there part by part. -/
theorem StandsIn.of_append
    {context : Context}
    {first second : List Line}
    (firstRests : Rests first)
    (reads : readLines .neutral context (first ++ second) = first ++ second) :
    StandsIn context first ∧
      readLines .neutral (context.belowAll first) second = second := by
  obtain ⟨firstReads, secondRead⟩ := ReadsIn.of_append firstRests.closed reads
  exact ⟨⟨firstRests, firstReads.reads⟩, secondRead⟩

end ScriptUplift
