import Mathlib.Data.Finmap

/-!
# Secondary indexes of a table

A table maps keys to values, and an index maps an attribute of the values back
to the keys.  `IsIndex f table index` says that the two are inverse: the index
has an entry for the attribute of each value of the table, and no other entry.
It holds only while no two values of the table share the attribute, so it also
states that the attribute is unique.

The lemmas say what insertion and removal keep, and what a lookup through the
index finds.
-/

namespace Data

variable {K V I : Type} [DecidableEq K] [DecidableEq I]

/-- `index` is the inverse of `table` on the attribute `f`. -/
def IsIndex (f : V → I) (table : Finmap fun _ : K => V) (index : Finmap fun _ : I => K) : Prop :=
  ∀ i k, index.lookup i = some k ↔ ∃ v, table.lookup k = some v ∧ f v = i

namespace IsIndex

variable {f g : V → I} {table : Finmap fun _ : K => V} {index : Finmap fun _ : I => K}
  {i : I} {k k' : K} {v v' : V}

theorem empty (f : V → I) : IsIndex f (∅ : Finmap fun _ : K => V) ∅ := by
  intro i k
  simp

/-- The index knows every value of the table. -/
theorem lookup_index (h : IsIndex f table index) (hv : table.lookup k = some v) :
    index.lookup (f v) = some k :=
  (h (f v) k).2 ⟨v, hv, rfl⟩

/-- The attribute is unique. -/
theorem injective (h : IsIndex f table index) (hv : table.lookup k = some v)
    (hv' : table.lookup k' = some v') (heq : f v = f v') : k = k' := by
  have h1 := h.lookup_index hv
  rw [heq, h.lookup_index hv'] at h1
  exact (Option.some.inj h1).symm

/-- The lookup through the index finds the value with the attribute. -/
theorem lookup_two_step (h : IsIndex f table index) :
    (index.lookup i).bind (fun k => table.lookup k) = some v ↔
      ∃ k, table.lookup k = some v ∧ f v = i := by
  rw [Option.bind_eq_some_iff]
  constructor
  · rintro ⟨k, hk, hv⟩
    obtain ⟨v', hv', hf⟩ := (h i k).1 hk
    rw [hv, Option.some.injEq] at hv'
    exact ⟨k, hv, hv' ▸ hf⟩
  · rintro ⟨k, hv, rfl⟩
    exact ⟨k, h.lookup_index hv, hv⟩

/-- An attribute is in the index exactly if a value of the table has it. -/
theorem mem_iff (h : IsIndex f table index) :
    i ∈ index ↔ ∃ k v, table.lookup k = some v ∧ f v = i := by
  rw [Finmap.mem_iff]
  exact exists_congr fun k => h i k

/-- Two attributes that agree on the table have the same index. -/
theorem congr (h : IsIndex f table index)
    (hfg : ∀ k v, table.lookup k = some v → g v = f v) : IsIndex g table index := by
  intro i k
  rw [h i k]
  constructor
  · rintro ⟨v, hv, hi⟩
    exact ⟨v, hv, (hfg k v hv).trans hi⟩
  · rintro ⟨v, hv, hi⟩
    exact ⟨v, hv, (hfg k v hv).symm.trans hi⟩

/-- Inserting a new key with an attribute that is not taken. -/
theorem insert (h : IsIndex f table index) (hk : k ∉ table) (hi : f v ∉ index) :
    IsIndex f (table.insert k v) (index.insert (f v) k) := by
  intro j l
  by_cases hj : j = f v
  · subst hj
    rw [Finmap.lookup_insert]
    constructor
    · intro hl
      rw [Option.some.injEq] at hl
      exact ⟨v, by rw [← hl, Finmap.lookup_insert], rfl⟩
    · rintro ⟨w, hw, hf⟩
      by_cases hl : l = k
      · rw [hl]
      · rw [Finmap.lookup_insert_of_ne _ hl] at hw
        exact absurd (h.mem_iff.2 ⟨l, w, hw, hf⟩) hi
  · rw [Finmap.lookup_insert_of_ne _ hj, h j l]
    by_cases hl : l = k
    · subst hl
      rw [Finmap.lookup_insert, Finmap.lookup_eq_none.2 hk]
      constructor
      · rintro ⟨w, hw, _⟩
        cases hw
      · rintro ⟨w, hw, hf⟩
        rw [Option.some.injEq] at hw
        exact absurd (hw ▸ hf.symm) hj
    · rw [Finmap.lookup_insert_of_ne _ hl]

/-- Removing a key together with the attribute of its value. -/
theorem erase (h : IsIndex f table index) (hv : table.lookup k = some v) :
    IsIndex f (table.erase k) (index.erase (f v)) := by
  intro j l
  by_cases hj : j = f v
  · subst hj
    rw [Finmap.lookup_erase]
    constructor
    · intro hl
      cases hl
    · rintro ⟨w, hw, hf⟩
      by_cases hl : l = k
      · rw [hl, Finmap.lookup_erase] at hw
        cases hw
      · rw [Finmap.lookup_erase_ne hl] at hw
        exact absurd (h.injective hw hv hf) hl
  · rw [Finmap.lookup_erase_ne hj, h j l]
    by_cases hl : l = k
    · subst hl
      rw [Finmap.lookup_erase, hv]
      constructor
      · rintro ⟨w, hw, hf⟩
        rw [Option.some.injEq] at hw
        exact absurd (hw ▸ hf.symm) hj
      · rintro ⟨w, hw, _⟩
        cases hw
    · rw [Finmap.lookup_erase_ne hl]

end IsIndex

end Data
