namespace ScriptUplift

/-!
# Sorted entries

A map is a list of keys and values in the order of its keys.  Looking up is
`List.lookup`; insertion keeps the order and replaces what a key held.
-/

namespace Entries

/-- Let a key hold a value. -/
def insert
    {κ α : Type}
    [DecidableEq κ] [LT κ] [DecidableLT κ]
    (key : κ)
    (value : α) :
    List (κ × α) → List (κ × α)
  | [] =>
      [(key, value)]
  | (known, held) :: rest =>
      if key = known then
        (key, value) :: rest
      else if key < known then
        (key, value) :: (known, held) :: rest
      else
        (known, held) :: insert key value rest

/-- Forget a key. -/
def erase
    {κ α : Type}
    [DecidableEq κ]
    (key : κ)
    (entries : List (κ × α)) :
    List (κ × α) :=
  entries.filter fun entry => entry.1 ≠ key

section

variable {κ α : Type} [DecidableEq κ]

/-- A lookup passes over an entry of another key. -/
theorem lookup_cons_of_ne
    {key known : κ}
    (different : key ≠ known)
    (held : α)
    (rest : List (κ × α)) :
    ((known, held) :: rest).lookup key = rest.lookup key := by
  simp [List.lookup_cons, beq_false_of_ne different]

/-- A key holds what was inserted last. -/
theorem lookup_insert_self
    [LT κ] [DecidableLT κ]
    (key : κ)
    (value : α)
    (entries : List (κ × α)) :
    (insert key value entries).lookup key = some value := by
  induction entries with
  | nil =>
      simp [insert]
  | cons entry rest inductionHypothesis =>
      rcases entry with ⟨known, held⟩
      unfold insert
      split
      · simp
      · split
        · simp
        · rename_i different _
          rw [lookup_cons_of_ne different, inductionHypothesis]

/-- Inserting changes nothing under other keys. -/
theorem lookup_insert_of_ne
    [LT κ] [DecidableLT κ]
    {key other : κ}
    (different : other ≠ key)
    (value : α)
    (entries : List (κ × α)) :
    (insert key value entries).lookup other = entries.lookup other := by
  induction entries with
  | nil =>
      simp [insert, lookup_cons_of_ne different]
  | cons entry rest inductionHypothesis =>
      rcases entry with ⟨known, held⟩
      unfold insert
      split
      · rename_i same
        rw [lookup_cons_of_ne different, lookup_cons_of_ne (same ▸ different)]
      · split
        · rw [lookup_cons_of_ne different]
        · simp only [List.lookup_cons, inductionHypothesis]

/-- A forgotten key holds nothing. -/
theorem lookup_erase_self
    (key : κ)
    (entries : List (κ × α)) :
    (erase key entries).lookup key = none := by
  induction entries with
  | nil =>
      rfl
  | cons entry rest inductionHypothesis =>
      rcases entry with ⟨known, held⟩
      unfold erase at inductionHypothesis ⊢
      by_cases same : known = key
      · rw [List.filter_cons_of_neg (by simp [same]), inductionHypothesis]
      · rw [List.filter_cons_of_pos (by simp [same]),
          lookup_cons_of_ne fun equal => same equal.symm, inductionHypothesis]

/-- Forgetting a key changes nothing under other keys. -/
theorem lookup_erase_of_ne
    {key other : κ}
    (different : other ≠ key)
    (entries : List (κ × α)) :
    (erase key entries).lookup other = entries.lookup other := by
  induction entries with
  | nil =>
      rfl
  | cons entry rest inductionHypothesis =>
      rcases entry with ⟨known, held⟩
      unfold erase at inductionHypothesis ⊢
      by_cases same : known = key
      · rw [List.filter_cons_of_neg (by simp [same]), inductionHypothesis,
          lookup_cons_of_ne (same ▸ different)]
      · rw [List.filter_cons_of_pos (by simp [same])]
        simp only [List.lookup_cons, inductionHypothesis]

end

end Entries

end ScriptUplift
