import Mathlib.Tactic.Common
import ScriptUplift.Entries
import ScriptUplift.Report

namespace ScriptUplift

/-!
# Counting in a tally

A tally is read through `count`: the number under a name, zero for a name that
was never counted.  Adding changes the count of one name, registration changes
none, and neither forgets a name.
-/

namespace Tally

/-- The count under a name; a name that is not known counts nothing. -/
def count
    (tally : Tally)
    (name : String) :
    Int :=
  (tally.get? name).getD 0

/-- A lookup answers exactly for the names that occur. -/
theorem lookup_isSome_iff
    (entries : List (String × Int))
    (name : String) :
    (entries.lookup name).isSome = (entries.map Prod.fst).contains name := by
  induction entries with
  | nil =>
      rfl
  | cons entry rest inductionHypothesis =>
      obtain ⟨known, value⟩ := entry
      by_cases same : name = known
      · subst same
        simp
      · rw [Entries.lookup_cons_of_ne same]
        simpa [beq_false_of_ne same] using inductionHypothesis

/-- A change of one name leaves the lookup of every other name alone. -/
theorem lookup_bump
    (name other : String)
    (amount : Int)
    (entries : List (String × Int)) :
    (bump name amount entries).lookup other =
      (entries.lookup other).map
        (fun value => if other = name then value + amount else value) := by
  induction entries with
  | nil =>
      rfl
  | cons entry rest inductionHypothesis =>
      obtain ⟨known, value⟩ := entry
      unfold bump
      by_cases changed : known = name
      · subst changed
        by_cases asked : other = known
        · subst asked
          simp
        · simp [Entries.lookup_cons_of_ne asked, asked]
      · rw [if_neg changed]
        by_cases asked : other = known
        · subst asked
          simp [changed]
        · simpa [Entries.lookup_cons_of_ne asked] using inductionHypothesis

/-- Adding under a name makes it known with the sum, and keeps every other name. -/
theorem get?_add
    (tally : Tally)
    (name other : String)
    (amount : Int) :
    (tally.add name amount).get? other =
      if other = name then some (tally.count name + amount) else tally.get? other := by
  have known := lookup_isSome_iff tally.entries name
  unfold add names
  split
  · rename_i occurs
    rw [occurs] at known
    obtain ⟨value, found⟩ := Option.isSome_iff_exists.mp known
    by_cases asked : other = name
    · subst asked
      simp [get?, count, lookup_bump, found]
    · simp [get?, lookup_bump, asked]
  · rename_i absent
    rw [Bool.eq_false_iff.mpr absent] at known
    have unknown : tally.entries.lookup name = none := by
      simpa using known
    by_cases asked : other = name
    · subst asked
      simp [get?, count, List.lookup_append, unknown]
    · simp [get?, List.lookup_append, Entries.lookup_cons_of_ne asked, asked]

/-- Adding under a name adds to its count and to no other. -/
@[simp] theorem count_add
    (tally : Tally)
    (name other : String)
    (amount : Int) :
    (tally.add name amount).count other =
      tally.count other + if other = name then amount else 0 := by
  unfold count
  rw [get?_add]
  split
  · rename_i same
    subst same
    rfl
  · simp

/-- Registration counts nothing. -/
@[simp] theorem count_register
    (tally : Tally)
    (registered : List String)
    (name : String) :
    (tally.register registered).count name = tally.count name := by
  unfold register
  induction registered generalizing tally with
  | nil =>
      rfl
  | cons first rest inductionHypothesis =>
      simp [inductionHypothesis]

theorem get?_register_of_some
    {tally : Tally}
    {name : String}
    {value : Int}
    (registered : List String)
    (present : tally.get? name = some value) :
    (tally.register registered).get? name = some value := by
  unfold register
  induction registered generalizing tally with
  | nil =>
      exact present
  | cons first rest inductionHypothesis =>
      apply inductionHypothesis
      rw [get?_add]
      split
      · rename_i same
        subst same
        simp [count, present]
      · exact present

/-- The empty tally counts nothing. -/
@[simp] theorem count_empty
    (name : String) :
    ({} : Tally).count name = 0 :=
  rfl

theorem names_bump
    (name : String)
    (amount : Int)
    (entries : List (String × Int)) :
    (bump name amount entries).map Prod.fst = entries.map Prod.fst := by
  induction entries with
  | nil =>
      rfl
  | cons entry rest inductionHypothesis =>
      obtain ⟨known, value⟩ := entry
      unfold bump
      split
      · rfl
      · simp [inductionHypothesis]

/-- No name is counted twice. -/
def Distinct
    (tally : Tally) :
    Prop :=
  tally.names.Nodup

theorem distinct_empty :
    Distinct {} :=
  List.nodup_nil

theorem Distinct.add
    {tally : Tally}
    (distinct : tally.Distinct)
    (name : String)
    (amount : Int) :
    (tally.add name amount).Distinct := by
  unfold Distinct Tally.add
  split
  · unfold names
    rw [names_bump]
    exact distinct
  · rename_i unknown
    have absent : name ∉ tally.names := by
      simpa using unknown
    unfold names at absent ⊢
    rw [List.map_append, List.nodup_append]
    refine ⟨distinct, by simp, ?_⟩
    intro known isKnown other isOther
    rw [List.mem_singleton.mp isOther]
    rintro rfl
    exact absent isKnown

theorem Distinct.register
    {tally : Tally}
    (distinct : tally.Distinct)
    (registered : List String) :
    (tally.register registered).Distinct := by
  unfold Tally.register
  induction registered generalizing tally with
  | nil =>
      exact distinct
  | cons first rest inductionHypothesis =>
      exact inductionHypothesis (distinct.add first 0)

theorem lookup_of_mem
    {entries : List (String × Int)}
    (distinct : (entries.map Prod.fst).Nodup)
    {name : String}
    {value : Int}
    (member : (name, value) ∈ entries) :
    entries.lookup name = some value := by
  induction entries with
  | nil =>
      simp at member
  | cons entry rest inductionHypothesis =>
      obtain ⟨known, held⟩ := entry
      obtain ⟨absent, restDistinct⟩ := List.nodup_cons.mp distinct
      rcases List.mem_cons.mp member with same | inRest
      · obtain ⟨rfl, rfl⟩ := Prod.mk.inj same
        simp
      · have different : name ≠ known := by
          rintro rfl
          exact absent (List.mem_map.mpr ⟨_, inRest, rfl⟩)
        rw [Entries.lookup_cons_of_ne different, inductionHypothesis restDistinct inRest]

theorem foldr_add_eq_zero_iff
    {values : List Int}
    (nonnegative : ∀ value ∈ values, 0 ≤ value) :
    0 ≤ values.foldr (· + ·) 0 ∧
      (values.foldr (· + ·) 0 = 0 ↔ ∀ value ∈ values, value = 0) := by
  induction values with
  | nil =>
      simp
  | cons value rest inductionHypothesis =>
      obtain ⟨own, others⟩ := List.forall_mem_cons.mp nonnegative
      obtain ⟨restNonnegative, restIff⟩ := inductionHypothesis others
      rw [List.foldr_cons, List.forall_mem_cons, ← restIff]
      exact ⟨by omega, by omega⟩

/-- Counts that never shrink below zero sum up to zero exactly when each of them is zero. -/
theorem total_eq_zero_iff
    {tally : Tally}
    (distinct : tally.Distinct)
    (nonnegative : ∀ name, 0 ≤ tally.count name) :
    tally.total = 0 ↔ ∀ name, tally.count name = 0 := by
  have counts {entry : String × Int} (member : entry ∈ tally.entries) :
      tally.count entry.1 = entry.2 := by
    simp [count, get?, lookup_of_mem distinct member]
  have valuesNonnegative : ∀ value ∈ tally.entries.map Prod.snd, 0 ≤ value := by
    intro value isValue
    obtain ⟨entry, member, rfl⟩ := List.mem_map.mp isValue
    rw [← counts member]
    exact nonnegative entry.1
  unfold total
  rw [(foldr_add_eq_zero_iff valuesNonnegative).2]
  constructor
  · intro zeros name
    unfold count get?
    cases found : tally.entries.lookup name with
    | none =>
        rfl
    | some value =>
        obtain ⟨before, after, parts, _⟩ := List.lookup_eq_some_iff.mp found
        have member : (name, value) ∈ tally.entries := by
          simp [parts]
        exact zeros value (List.mem_map_of_mem member)
  · intro zeros value isValue
    obtain ⟨entry, member, rfl⟩ := List.mem_map.mp isValue
    rw [← counts member]
    exact zeros entry.1

end Tally

end ScriptUplift
