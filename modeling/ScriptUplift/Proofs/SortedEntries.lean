import Mathlib.Tactic.Common
import ScriptUplift.Entries

namespace ScriptUplift

/-!
# Entries in the order of their keys

Entries whose keys rise strictly are determined by their lookups.  Insertions
under different keys commute, whatever the order of the entries.
-/

namespace Entries

variable {α β : Type}

/-- The keys rise strictly. -/
def Sorted
    (entries : List (String × α)) :
    Prop :=
  entries.Pairwise fun first second => first.1 < second.1

instance
    (entries : List (String × α)) :
    Decidable (Sorted entries) :=
  inferInstanceAs (Decidable (List.Pairwise _ _))

theorem lookup_insert
    (key other : String)
    (value : α)
    (entries : List (String × α)) :
    (insert key value entries).lookup other =
      if other = key then some value else entries.lookup other := by
  by_cases same : other = key
  · subst same
    rw [lookup_insert_self, if_pos rfl]
  · rw [lookup_insert_of_ne same, if_neg same]

theorem lookup_erase
    (key other : String)
    (entries : List (String × α)) :
    (erase key entries).lookup other =
      if other = key then none else entries.lookup other := by
  by_cases same : other = key
  · subst same
    rw [lookup_erase_self, if_pos rfl]
  · rw [lookup_erase_of_ne same, if_neg same]

theorem mem_of_lookup
    {entries : List (String × α)}
    {key : String}
    {value : α}
    (found : entries.lookup key = some value) :
    (key, value) ∈ entries := by
  obtain ⟨earlier, later, parts, _⟩ := List.lookup_eq_some_iff.mp found
  rw [parts]
  simp

theorem Sorted.lookup_of_mem
    {entries : List (String × α)}
    (sorted : Sorted entries)
    {key : String}
    {value : α}
    (member : (key, value) ∈ entries) :
    entries.lookup key = some value := by
  induction entries with
  | nil =>
      cases member
  | cons entry rest inductionHypothesis =>
      obtain ⟨above, restSorted⟩ := List.pairwise_cons.mp sorted
      rcases List.mem_cons.mp member with same | inRest
      · subst same
        simp
      · have different : key ≠ entry.1 := by
          intro same
          exact String.lt_irrefl _ (same ▸ above (key, value) inRest)
        rw [lookup_cons_of_ne different, inductionHypothesis restSorted inRest]

theorem mem_insert
    {entry : String × α}
    {key : String}
    {value : α}
    {entries : List (String × α)}
    (member : entry ∈ insert key value entries) :
    entry = (key, value) ∨ entry ∈ entries := by
  induction entries with
  | nil =>
      simpa [insert] using member
  | cons head rest inductionHypothesis =>
      obtain ⟨known, held⟩ := head
      unfold insert at member
      split at member
      · rcases List.mem_cons.mp member with same | inRest
        · exact .inl same
        · exact .inr (List.mem_cons_of_mem _ inRest)
      · split at member
        · exact List.mem_cons.mp member
        · rcases List.mem_cons.mp member with same | inRest
          · exact .inr (same ▸ List.mem_cons_self)
          · exact (inductionHypothesis inRest).imp_right (List.mem_cons_of_mem _)

theorem Sorted.insert
    {entries : List (String × α)}
    (sorted : Sorted entries)
    (key : String)
    (value : α) :
    Sorted (insert key value entries) := by
  induction entries with
  | nil =>
      exact List.pairwise_singleton _ _
  | cons entry rest inductionHypothesis =>
      obtain ⟨known, held⟩ := entry
      obtain ⟨above, restSorted⟩ := List.pairwise_cons.mp sorted
      unfold Entries.insert
      split
      · rename_i same
        subst same
        exact List.pairwise_cons.mpr ⟨above, restSorted⟩
      · rename_i different
        split
        · rename_i less
          refine List.pairwise_cons.mpr ⟨?_, sorted⟩
          intro other member
          rcases List.mem_cons.mp member with same | inRest
          · exact same ▸ less
          · exact String.lt_trans less (above other inRest)
        · rename_i notLess
          have greater : known < key := by
            by_contra notGreater
            exact different (String.le_antisymm (String.not_lt.mp notGreater)
              (String.not_lt.mp notLess))
          refine List.pairwise_cons.mpr ⟨?_, inductionHypothesis restSorted⟩
          intro other member
          rcases mem_insert member with same | inRest
          · exact same ▸ greater
          · exact above other inRest

theorem Sorted.erase
    {entries : List (String × α)}
    (sorted : Sorted entries)
    (key : String) :
    Sorted (erase key entries) :=
  sorted.sublist List.filter_sublist

/-- Sorted entries with the same lookups are the same. -/
theorem Sorted.eq_of_lookup
    {first second : List (String × α)}
    (firstSorted : Sorted first)
    (secondSorted : Sorted second)
    (same : ∀ key, first.lookup key = second.lookup key) :
    first = second := by
  have members (entry : String × α) : entry ∈ first ↔ entry ∈ second := by
    constructor
    · intro member
      exact mem_of_lookup (same entry.1 ▸ firstSorted.lookup_of_mem member)
    · intro member
      exact mem_of_lookup ((same entry.1).symm ▸ secondSorted.lookup_of_mem member)
  have distinct {entries : List (String × α)} (sorted : Sorted entries) : entries.Nodup := by
    refine List.Pairwise.imp ?_ sorted
    rintro one other less rfl
    exact String.lt_irrefl _ less
  refine List.Perm.eq_of_pairwise ?_ firstSorted secondSorted
    ((List.perm_ext_iff_of_nodup (distinct firstSorted) (distinct secondSorted)).mpr members)
  intro one other _ _ less greater
  exact absurd greater (String.lt_asymm less)

theorem insert_insert_of_lt
    {low high : String}
    (less : low < high)
    (lowValue highValue : α)
    (entries : List (String × α)) :
    insert low lowValue (insert high highValue entries) =
      insert high highValue (insert low lowValue entries) := by
  have different : low ≠ high := by
    rintro rfl
    exact String.lt_irrefl _ less
  have notLess : ¬ high < low := String.lt_asymm less
  induction entries with
  | nil =>
      simp [insert, different, different.symm, less, notLess]
  | cons entry rest inductionHypothesis =>
      obtain ⟨known, held⟩ := entry
      by_cases isHigh : high = known
      · subst isHigh
        simp [insert, different, different.symm, less, notLess]
      · by_cases belowHigh : high < known
        · have belowLow : low < known := String.lt_trans less belowHigh
          have lowOther : low ≠ known := by
            rintro rfl
            exact String.lt_irrefl _ belowLow
          simp [insert, different, different.symm, less, notLess, isHigh, belowHigh, belowLow,
            lowOther]
        · by_cases isLow : low = known
          · subst isLow
            simp [insert, isHigh, belowHigh]
          · by_cases belowLow : low < known
            · simp [insert, different.symm, notLess, isHigh, belowHigh, isLow, belowLow]
            · simp [insert, isHigh, belowHigh, isLow, belowLow, inductionHypothesis]

/-- Insertions under different keys commute. -/
theorem insert_comm
    {key other : String}
    (different : key ≠ other)
    (value held : α)
    (entries : List (String × α)) :
    insert key value (insert other held entries) =
      insert other held (insert key value entries) := by
  by_cases less : key < other
  · exact insert_insert_of_lt less value held entries
  · have greater : other < key := by
      by_contra notGreater
      exact different (String.le_antisymm (String.not_lt.mp notGreater) (String.not_lt.mp less))
    exact (insert_insert_of_lt greater held value entries).symm

/-- A change of every value, whatever its key, is made before or after an insertion. -/
theorem map_insert
    (change : α → β)
    (key : String)
    (value : α)
    (entries : List (String × α)) :
    (insert key value entries).map (fun entry => (entry.1, change entry.2)) =
      insert key (change value) (entries.map fun entry => (entry.1, change entry.2)) := by
  induction entries with
  | nil =>
      rfl
  | cons entry rest inductionHypothesis =>
      obtain ⟨known, held⟩ := entry
      by_cases same : key = known
      · simp [insert, same]
      · by_cases less : key < known
        · simp [insert, same, less]
        · simp [insert, same, less, inductionHypothesis]

theorem lookup_map
    (change : α → β)
    (key : String)
    (entries : List (String × α)) :
    (entries.map fun entry => (entry.1, change entry.2)).lookup key =
      (entries.lookup key).map change := by
  induction entries with
  | nil =>
      rfl
  | cons entry rest inductionHypothesis =>
      obtain ⟨known, held⟩ := entry
      by_cases same : key = known
      · simp [same]
      · rw [List.map_cons, lookup_cons_of_ne same, lookup_cons_of_ne same, inductionHypothesis]

end Entries

end ScriptUplift
