import Mathlib.Data.List.Basic
import Mathlib.Tactic.Common
import ScriptUplift.Classify.Refresh

namespace ScriptUplift

/-!
# What a file knows about its lines

A line has an identity (its number, its texts and its scope) and a knowledge
(depth, category and flags).  Recomputation keeps the identity of every line
and takes the knowledge from the texts and the indentation unit alone, so that
lines with equal texts are known alike and a second recomputation is idle.
-/

/-- What classification finds out about a line. -/
structure Knowledge where
  depth : Nat
  category : Category
  continues : Bool
  inString : Bool
  opens : Bool
  annotationOnly : Bool
  deriving Repr, DecidableEq

/-- What a line is, whatever is known about it. -/
structure Identity where
  number : Nat
  source : Text
  text : Text
  scope : Scope
  deriving Repr, DecidableEq

namespace Line

/-- What is known about a line. -/
def known
    (line : Line) :
    Knowledge :=
  ⟨line.depth, line.category, line.continues, line.inString, line.opens, line.annotationOnly⟩

/-- What a line is apart from what is known about it. -/
def identity
    (line : Line) :
    Identity :=
  ⟨line.number, line.source, line.text, line.scope⟩

theorem eq_of_identity_of_known
    {first second : Line}
    (sameIdentity : first.identity = second.identity)
    (sameKnown : first.known = second.known) :
    first = second := by
  cases first
  cases second
  simp only [identity, known, Identity.mk.injEq, Knowledge.mk.injEq] at sameIdentity sameKnown
  obtain ⟨rfl, rfl, rfl, rfl⟩ := sameIdentity
  obtain ⟨rfl, rfl, rfl, rfl, rfl, rfl⟩ := sameKnown
  rfl

end Line

/-- Lines are given by their identities and what is known about them. -/
theorem eq_of_identities_of_known
    {first second : List Line}
    (sameIdentity : first.map Line.identity = second.map Line.identity)
    (sameKnown : first.map Line.known = second.map Line.known) :
    first = second := by
  induction first generalizing second with
  | nil =>
      simpa using sameIdentity.symm
  | cons line rest inductionHypothesis =>
      cases second with
      | nil =>
          simp at sameIdentity
      | cons other others =>
          simp only [List.map_cons, List.cons.injEq] at sameIdentity sameKnown
          rw [Line.eq_of_identity_of_known sameIdentity.1 sameKnown.1,
            inductionHypothesis sameIdentity.2 sameKnown.2]

@[simp] theorem Reading.length_lines
    (carry : Carry)
    (texts : List Text) :
    (Reading.lines carry texts).length = texts.length := by
  induction texts generalizing carry with
  | nil =>
      rfl
  | cons text rest inductionHypothesis =>
      simp [Reading.lines, inductionHypothesis]

theorem statementOpens_congr
    {first second : List (Line × Reading)}
    (sameReadings : first.map Prod.snd = second.map Prod.snd) :
    statementOpens first = statementOpens second := by
  induction first generalizing second with
  | nil =>
      have empty : second = [] := by
        simpa using sameReadings.symm
      rw [empty]
  | cons pair rest inductionHypothesis =>
      cases second with
      | nil =>
          simp at sameReadings
      | cons other others =>
          simp only [List.map_cons, List.cons.injEq] at sameReadings
          simp only [statementOpens, sameReadings.1, inductionHypothesis sameReadings.2]

/-- Classification keeps the identity of every line. -/
theorem classifyLines_identity
    (context : Context)
    (pairs : List (Line × Reading)) :
    (classifyLines context pairs).map Line.identity =
      pairs.map (·.1.identity) := by
  induction pairs generalizing context with
  | nil =>
      rfl
  | cons pair rest inductionHypothesis =>
      obtain ⟨line, reading⟩ := pair
      simp only [classifyLines]
      split
      · simp [inductionHypothesis, Line.identity]
      · split <;> simp [inductionHypothesis, Line.identity]

/-- Classification knows lines alike that have equal texts and readings. -/
theorem classifyLines_known_congr
    (context : Context)
    {first second : List (Line × Reading)}
    (sameTexts : first.map (·.1.text) = second.map (·.1.text))
    (sameReadings : first.map Prod.snd = second.map Prod.snd) :
    (classifyLines context first).map Line.known =
      (classifyLines context second).map Line.known := by
  induction first generalizing context second with
  | nil =>
      have empty : second = [] := by
        simpa using sameTexts.symm
      rw [empty]
  | cons pair rest inductionHypothesis =>
      cases second with
      | nil =>
          simp at sameTexts
      | cons other others =>
          have sameOpens := statementOpens_congr sameReadings
          obtain ⟨line, reading⟩ := pair
          obtain ⟨otherLine, otherReading⟩ := other
          simp only [List.map_cons, List.cons.injEq] at sameTexts sameReadings
          obtain ⟨sameText, restTexts⟩ := sameTexts
          obtain ⟨rfl, restReadings⟩ := sameReadings
          have restKnown := fun next =>
            inductionHypothesis next restTexts restReadings
          simp only [classifyLines, sameText, sameOpens]
          split
          · simp [Line.known, restKnown]
          · split
            · simp [Line.known, restKnown]
            · simp [Line.known, restKnown]

theorem map_zip_readings
    {β : Type}
    (view : Line → β)
    {lines : List Line}
    {readings : List Reading}
    (enough : lines.length ≤ readings.length) :
    (lines.zip readings).map (view ·.1) = lines.map view := by
  calc
    (lines.zip readings).map (view ·.1)
      = ((lines.zip readings).map Prod.fst).map view := by
        rw [List.map_map]
        rfl
    _ = lines.map view := by
        rw [List.map_fst_zip enough]

/-- Recomputation keeps the identity of every line. -/
theorem refreshLines_identity
    (unit : IndentUnit)
    (lines : List Line) :
    (refreshLines unit lines).map Line.identity = lines.map Line.identity := by
  unfold refreshLines
  rw [classifyLines_identity, map_zip_readings Line.identity (by simp)]

/-- A view of the identity of lines survives recomputation. -/
theorem refreshLines_view
    {β : Type}
    (view : Identity → β)
    (unit : IndentUnit)
    (lines : List Line) :
    (refreshLines unit lines).map (view ·.identity) = lines.map (view ·.identity) := by
  have same := congrArg (List.map view) (refreshLines_identity unit lines)
  rw [List.map_map, List.map_map] at same
  exact same

@[simp] theorem refreshLines_texts
    (unit : IndentUnit)
    (lines : List Line) :
    (refreshLines unit lines).map (·.text) = lines.map (·.text) :=
  refreshLines_view Identity.text unit lines

@[simp] theorem refreshLines_numbers
    (unit : IndentUnit)
    (lines : List Line) :
    (refreshLines unit lines).map (·.number) = lines.map (·.number) :=
  refreshLines_view Identity.number unit lines

/-- Recomputation finds every line under its number and text. -/
theorem exists_mem_refreshLines
    (unit : IndentUnit)
    {lines : List Line}
    {line : Line}
    (member : line ∈ lines) :
    ∃ out ∈ refreshLines unit lines, out.number = line.number ∧ out.text = line.text := by
  have among : line.identity ∈ (refreshLines unit lines).map Line.identity := by
    rw [refreshLines_identity]
    exact List.mem_map_of_mem member
  obtain ⟨out, isOut, same⟩ := List.mem_map.mp among
  exact ⟨out, isOut, congrArg Identity.number same, congrArg Identity.text same⟩

/-- Recomputation makes up no line. -/
theorem exists_of_mem_refreshLines
    {unit : IndentUnit}
    {lines : List Line}
    {out : Line}
    (member : out ∈ refreshLines unit lines) :
    ∃ line ∈ lines, out.number = line.number ∧ out.text = line.text := by
  have among : out.identity ∈ lines.map Line.identity := by
    rw [← refreshLines_identity unit]
    exact List.mem_map_of_mem member
  obtain ⟨line, isLine, same⟩ := List.mem_map.mp among
  exact ⟨line, isLine, (congrArg Identity.number same).symm, (congrArg Identity.text same).symm⟩

/-- Lines with equal texts are known alike. -/
theorem refreshLines_known_congr
    (unit : IndentUnit)
    {first second : List Line}
    (sameTexts : first.map (·.text) = second.map (·.text)) :
    (refreshLines unit first).map Line.known =
      (refreshLines unit second).map Line.known := by
  unfold refreshLines
  rw [sameTexts]
  have sameLength : first.length = second.length := by
    simpa using congrArg List.length sameTexts
  apply classifyLines_known_congr
  · rw [map_zip_readings Line.text (by simp [sameLength]), map_zip_readings Line.text (by simp)]
    exact sameTexts
  · rw [List.map_snd_zip (by simp [sameLength]), List.map_snd_zip (by simp)]

/-- A second recomputation is idle. -/
theorem refreshLines_refreshLines
    (unit : IndentUnit)
    (lines : List Line) :
    refreshLines unit (refreshLines unit lines) = refreshLines unit lines :=
  eq_of_identities_of_known
    (refreshLines_identity unit _)
    (refreshLines_known_congr unit (refreshLines_texts unit lines))

/-- Lines stay known when their texts and what is known about them stay. -/
theorem refreshLines_eq_of_same
    {unit : IndentUnit}
    {before after : List Line}
    (fresh : refreshLines unit before = before)
    (sameTexts : after.map (·.text) = before.map (·.text))
    (sameKnown : after.map Line.known = before.map Line.known) :
    refreshLines unit after = after := by
  apply eq_of_identities_of_known (refreshLines_identity unit after)
  calc
    (refreshLines unit after).map Line.known
      = (refreshLines unit before).map Line.known :=
        refreshLines_known_congr unit sameTexts
    _ = before.map Line.known := by
        rw [fresh]
    _ = after.map Line.known :=
        sameKnown.symm

/-- A line of a classified file continues a statement, or was classified in some context. -/
theorem mem_classifyLines
    {context : Context}
    {pairs : List (Line × Reading)}
    {line : Line}
    (member : line ∈ classifyLines context pairs) :
    (line.continues = true ∧ line.category = .other) ∨
      ∃ around : Context,
        line.continues = false ∧
          classify around line.text = (line.category, line.annotationOnly) := by
  induction pairs generalizing context with
  | nil =>
      simp [classifyLines] at member
  | cons pair rest inductionHypothesis =>
      obtain ⟨read, reading⟩ := pair
      simp only [classifyLines] at member
      split at member
      · rename_i continues
        rcases List.mem_cons.mp member with rfl | inRest
        · exact .inl ⟨continues, rfl⟩
        · exact inductionHypothesis inRest
      · rename_i starts
        have fresh : reading.continues = false := by
          simpa using starts
        split at member
        · rcases List.mem_cons.mp member with rfl | inRest
          · exact .inr ⟨context, fresh, rfl⟩
          · exact inductionHypothesis inRest
        · rcases List.mem_cons.mp member with rfl | inRest
          · exact .inr ⟨context, fresh, rfl⟩
          · exact inductionHypothesis inRest

namespace Category

/-- The categories that code can get: neither trivia nor an orphan. -/
def OfCode
    (category : Category) :
    Prop :=
  category ≠ .orphan ∧ category.isTrivia = false

instance (category : Category) : Decidable category.OfCode :=
  inferInstanceAs (Decidable (_ ∧ _))

theorem ite_ofCode
    {condition : Prop}
    [Decidable condition]
    {first second : Category}
    (firstOfCode : first.OfCode)
    (secondOfCode : second.OfCode) :
    (if condition then first else second).OfCode := by
  split <;> assumption

theorem ofField_ofCode
    (context : Context)
    (depth : Nat)
    (kind : AnnotationKind)
    (after : Text) :
    (ofField context depth kind after).OfCode := by
  unfold ofField
  split
  · decide
  · split
    · decide
    · cases kind <;> simp only <;> (try split) <;> decide

theorem ofMethod_ofCode
    (after : Text) :
    (ofMethod after).OfCode := by
  unfold ofMethod
  repeat' apply ite_ofCode
  all_goals decide

theorem ofKeywordWithin_ofCode
    (context : Context)
    (depth : Nat)
    (kind : AnnotationKind)
    (limit : Nat)
    (code : Text) :
    (ofKeywordWithin context depth kind limit code).OfCode := by
  induction limit generalizing code with
  | zero =>
      unfold ofKeywordWithin
      decide
  | succ limit inductionHypothesis =>
      unfold ofKeywordWithin
      dsimp only
      repeat'
        first
        | exact ofField_ofCode context depth kind _
        | exact ofMethod_ofCode _
        | exact inductionHypothesis _
        | apply ite_ofCode
      all_goals decide

end Category

/-- The classifier calls no line an orphan. -/
theorem classify_ne_orphan
    (context : Context)
    (text : Text) :
    (classify context text).1 ≠ .orphan := by
  unfold classify
  dsimp only
  split
  · decide
  · split
    · decide
    · split
      · unfold classifyAnnotations
        split
        · decide
        · decide
        · split_ifs <;> decide
      · exact (Category.ofKeywordWithin_ofCode _ _ _ _ _).1

/-- Recomputation calls no line an orphan. -/
theorem category_ne_orphan_of_mem_refreshLines
    {unit : IndentUnit}
    {lines : List Line}
    {line : Line}
    (member : line ∈ refreshLines unit lines) :
    line.category ≠ .orphan := by
  rcases mem_classifyLines member with ⟨_, category⟩ | ⟨context, _, classified⟩
  · rw [category]
    decide
  · have never := classify_ne_orphan context line.text
    rwa [classified] at never

/-- A blank line of a classified file is known to be blank. -/
theorem category_of_isBlank
    {context : Context}
    {pairs : List (Line × Reading)}
    {line : Line}
    (member : line ∈ classifyLines context pairs)
    (blank : line.isBlank = true) :
    line.category = .blank := by
  simp only [Line.isBlank, Bool.and_eq_true, Bool.not_eq_true'] at blank
  rcases mem_classifyLines member with ⟨continues, _⟩ | ⟨around, _, classified⟩
  · simp [continues] at blank
  · unfold classify at classified
    rw [if_pos blank.2, Prod.mk.injEq] at classified
    exact classified.1.symm

namespace Line

variable
  {line : Line}
  (statement : line.isStatement = true)

include statement

/-- What starts a statement continues none. -/
theorem continues_of_isStatement :
    line.continues = false := by
  simp only [isStatement, Bool.and_eq_true, Bool.not_eq_true'] at statement
  exact statement.1

/-- What starts a statement is no comment and not blank. -/
theorem isTrivia_of_isStatement :
    line.category.isTrivia = false := by
  simp only [isStatement, Bool.and_eq_true, Bool.not_eq_true'] at statement
  exact statement.2

end Line

/-- A statement of a classified file is not blank. -/
theorem isBlank_eq_false_of_mem_classifyLines
    {context : Context}
    {pairs : List (Line × Reading)}
    {line : Line}
    (member : line ∈ classifyLines context pairs)
    (statement : line.isStatement = true) :
    line.text.isBlank = false := by
  simp only [Line.isStatement, Bool.and_eq_true, Bool.not_eq_true'] at statement
  by_contra text
  have blank : line.isBlank = true := by
    simpa [Line.isBlank, statement.1] using text
  rw [category_of_isBlank member blank] at statement
  simp [Category.isTrivia] at statement

theorem isBlank_eq_false_of_isStatement
    {unit : IndentUnit}
    {lines : List Line}
    {line : Line}
    (member : line ∈ refreshLines unit lines)
    (statement : line.isStatement = true) :
    line.text.isBlank = false :=
  isBlank_eq_false_of_mem_classifyLines member statement

end ScriptUplift
