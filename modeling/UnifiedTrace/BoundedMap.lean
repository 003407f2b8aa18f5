import Mathlib.Data.List.AList
import Mathlib.Data.Finset.Card

/-!
# Finite Maps with a Capacity

A `BoundedMap κ ν cap` is an association list that never holds more than `cap` keys:
the bound is a field, so an overfull map cannot be built. An update of a key that is
present always succeeds; an update of an absent key is refused, as `none`, once the
map is full. This is the interface of a preallocated hash table.

## Main results

* `lookup_update`, `lookup_update_ne`: an update that succeeds changes its own key only.
* `update_eq_none_iff`: an update is refused only for an absent key of a full map.
* `update_isSome_of_subset`: a key of a set no larger than the capacity is never refused
  while all keys of the map come from that set.
* `Rel.update`, `Rel.delete`: two maps with the same keys and related values stay so under
  the same operations.
-/

/-- An association list with distinct keys, at most `cap` of them. -/
structure BoundedMap (κ ν : Type*) (cap : ℕ) where
  /-- The bindings. -/
  toAList : AList fun _ : κ => ν
  /-- The capacity is respected. -/
  size_le : toAList.keys.length ≤ cap

namespace BoundedMap

variable {κ ν : Type*} {cap : ℕ} [DecidableEq κ]

/-- The map with no binding. -/
def empty : BoundedMap κ ν cap := ⟨∅, by simp⟩

instance : Inhabited (BoundedMap κ ν cap) := ⟨empty⟩

/-- The value bound to `k`, if any. -/
def lookup (m : BoundedMap κ ν cap) (k : κ) : Option ν := m.toAList.lookup k

/-- The keys that have a value. -/
def keys (m : BoundedMap κ ν cap) : List κ := m.toAList.keys

/-- The number of bindings. -/
def size (m : BoundedMap κ ν cap) : ℕ := m.keys.length

/-- Inserting over a present key does not change the number of keys. -/
theorem length_keys_insert_of_mem {m : AList fun _ : κ => ν} {k : κ} (v : ν) (h : k ∈ m) :
    (m.insert k v).keys.length = m.keys.length := by
  rw [AList.keys_insert, List.length_cons]
  have hk : k ∈ m.keys := AList.mem_keys.mp h
  rw [List.length_erase_of_mem hk]
  have := List.length_pos_of_mem hk
  omega

/-- Inserting an absent key adds one key. -/
theorem length_keys_insert_of_notMem {m : AList fun _ : κ => ν} {k : κ} (v : ν)
    (h : k ∉ m) : (m.insert k v).keys.length = m.keys.length + 1 := by
  rw [AList.keys_insert, List.length_cons, List.erase_of_not_mem]
  exact fun hk => h (AList.mem_keys.mpr hk)

/-- Bind `k` to `v`. A key that is present is overwritten; an absent key is refused
when the map is full. -/
def update (m : BoundedMap κ ν cap) (k : κ) (v : ν) : Option (BoundedMap κ ν cap) :=
  if h : k ∈ m.toAList then
    some ⟨m.toAList.insert k v, by rw [length_keys_insert_of_mem v h]; exact m.size_le⟩
  else if hc : m.toAList.keys.length < cap then
    some ⟨m.toAList.insert k v, by rw [length_keys_insert_of_notMem v h]; exact hc⟩
  else
    none

/-- Remove the binding of `k`, if there is one. -/
def delete (m : BoundedMap κ ν cap) (k : κ) : BoundedMap κ ν cap :=
  ⟨m.toAList.erase k, by
    rw [AList.keys_erase]
    exact le_trans List.length_erase_le m.size_le⟩

/-- An empty map has no entries. -/
@[simp] theorem lookup_empty (k : κ) : (empty : BoundedMap κ ν cap).lookup k = none :=
  AList.lookup_empty k

omit [DecidableEq κ] in
@[simp] theorem keys_empty : (empty : BoundedMap κ ν cap).keys = [] := rfl

/-- A key is bound exactly when it is one of the keys. -/
theorem lookup_isSome {m : BoundedMap κ ν cap} {k : κ} :
    (m.lookup k).isSome ↔ k ∈ m.keys :=
  AList.lookup_isSome.trans AList.mem_keys

/-- What is not found has no key. -/
theorem lookup_eq_none {m : BoundedMap κ ν cap} {k : κ} :
    m.lookup k = none ↔ k ∉ m.keys := by
  rw [← lookup_isSome, Option.not_isSome_iff_eq_none]

/-- What a successful update did: the bindings are those of an insertion. -/
theorem toAList_of_update {m m' : BoundedMap κ ν cap} {k : κ} {v : ν}
    (h : m.update k v = some m') : m'.toAList = m.toAList.insert k v := by
  rw [update] at h
  split at h
  · rw [← Option.some.inj h]
  · split at h
    · rw [← Option.some.inj h]
    · exact absurd h (by simp)

/-- A successful update binds its key. -/
theorem lookup_update {m m' : BoundedMap κ ν cap} {k : κ} {v : ν}
    (h : m.update k v = some m') : m'.lookup k = some v := by
  rw [lookup, toAList_of_update h, AList.lookup_insert]

/-- A successful update leaves the other keys alone. -/
theorem lookup_update_ne {m m' : BoundedMap κ ν cap} {k k' : κ} {v : ν}
    (h : m.update k v = some m') (hne : k' ≠ k) : m'.lookup k' = m.lookup k' := by
  rw [lookup, toAList_of_update h, AList.lookup_insert_ne hne, lookup]

/-- A deleted entry is gone. -/
@[simp] theorem lookup_delete (m : BoundedMap κ ν cap) (k : κ) :
    (m.delete k).lookup k = none :=
  AList.lookup_erase k m.toAList

/-- The other entries stay. -/
theorem lookup_delete_ne (m : BoundedMap κ ν cap) {k k' : κ} (hne : k' ≠ k) :
    (m.delete k).lookup k' = m.lookup k' :=
  AList.lookup_erase_ne hne

/-- A deletion only removes keys. -/
theorem keys_delete_subset (m : BoundedMap κ ν cap) (k : κ) :
    (m.delete k).keys ⊆ m.keys := by
  rw [keys, delete, AList.keys_erase]
  exact List.erase_subset

/-- A successful update adds at most its own key. -/
theorem keys_update_subset {m m' : BoundedMap κ ν cap} {k : κ} {v : ν}
    (h : m.update k v = some m') : m'.keys ⊆ k :: m.keys := by
  rw [keys, toAList_of_update h, AList.keys_insert]
  exact List.cons_subset_cons _ List.erase_subset

/-- An update is refused only for an absent key of a full map. -/
theorem update_eq_none_iff {m : BoundedMap κ ν cap} {k : κ} {v : ν} :
    m.update k v = none ↔ k ∉ m.keys ∧ cap ≤ m.size := by
  rw [update]
  by_cases h : k ∈ m.toAList
  · simp [h, keys, ← AList.mem_keys]
  · by_cases hc : m.toAList.keys.length < cap
    · simp [h, hc, keys, size]
    · simp only [h, hc, dite_false, true_iff]
      exact ⟨fun hk => h (AList.mem_keys.mpr hk), not_lt.mp hc⟩

/-- While every key comes from a set that fits, no key of that set is refused. -/
theorem update_isSome_of_subset {m : BoundedMap κ ν cap} {k : κ} (v : ν) {K : Finset κ}
    (hK : ∀ k' ∈ m.keys, k' ∈ K) (hk : k ∈ K) (hcard : K.card ≤ cap) :
    (m.update k v).isSome := by
  by_contra hnone
  rw [Option.not_isSome_iff_eq_none, update_eq_none_iff] at hnone
  obtain ⟨habs, hfull⟩ := hnone
  -- the keys of the map, and `k` beside them, are distinct members of `K`
  have hnodup : (k :: m.keys).Nodup :=
    List.nodup_cons.mpr ⟨habs, m.toAList.keys_nodup⟩
  have hsub : (k :: m.keys).toFinset ⊆ K := by
    intro k' hk'
    rcases List.mem_cons.mp (List.mem_toFinset.mp hk') with rfl | hmem
    · exact hk
    · exact hK k' hmem
  have hle := Finset.card_le_card hsub
  rw [List.toFinset_card_of_nodup hnodup, List.length_cons] at hle
  rw [size] at hfull
  omega

/-! ### Related maps -/

/-- The same keys in the same order, with related values. -/
def Rel {ν' : Type*} (R : ν → ν' → Prop) (m : BoundedMap κ ν cap) (m' : BoundedMap κ ν' cap) :
    Prop :=
  m.keys = m'.keys ∧ ∀ k v v', m.lookup k = some v → m'.lookup k = some v' → R v v'

section Rel

variable {ν' : Type*} {R : ν → ν' → Prop} {m : BoundedMap κ ν cap} {m' : BoundedMap κ ν' cap}

/-- Empty maps are related. -/
theorem Rel.empty : Rel R (empty : BoundedMap κ ν cap) (empty : BoundedMap κ ν' cap) :=
  ⟨rfl, fun k v v' h _ => absurd h (by simp)⟩

/-- Related maps bind the same keys. -/
theorem Rel.lookup_eq_none_iff (h : Rel R m m') (k : κ) :
    m.lookup k = none ↔ m'.lookup k = none := by
  rw [lookup_eq_none, lookup_eq_none, h.1]

/-- The values of a key are both absent or related. -/
theorem Rel.lookup (h : Rel R m m') (k : κ) :
    m.lookup k = none ∧ m'.lookup k = none ∨
      ∃ v v', m.lookup k = some v ∧ m'.lookup k = some v' ∧ R v v' := by
  cases hv : m.lookup k with
  | none => exact .inl ⟨rfl, (h.lookup_eq_none_iff k).mp hv⟩
  | some v =>
      cases hv' : m'.lookup k with
      | none => exact absurd ((h.lookup_eq_none_iff k).mpr hv') (by simp [hv])
      | some v' => exact .inr ⟨v, v', rfl, rfl, h.2 k v v' hv hv'⟩

/-- The keys after a successful update. -/
theorem keys_update {m₁ : BoundedMap κ ν cap} {k : κ} {v : ν} (h : m.update k v = some m₁) :
    m₁.keys = k :: m.keys.erase k := by
  rw [keys, toAList_of_update h, AList.keys_insert, keys]

/-- Storing related values, or both stores being refused. -/
theorem Rel.update (h : Rel R m m') (k : κ) {v : ν} {v' : ν'} (hv : R v v') :
    Rel R ((m.update k v).getD m) ((m'.update k v').getD m') := by
  have hnone : m.update k v = none ↔ m'.update k v' = none := by
    rw [update_eq_none_iff, update_eq_none_iff, size, size, h.1]
  cases hu : m.update k v with
  | none =>
      rw [hnone.mp hu]
      exact h
  | some m₁ =>
      cases hu' : m'.update k v' with
      | none => exact absurd (hnone.mpr hu') (by simp [hu])
      | some m₁' =>
          refine ⟨by rw [Option.getD_some, Option.getD_some, keys_update hu, keys_update hu', h.1],
            fun k₁ v₁ v₁' hl hl' => ?_⟩
          rw [Option.getD_some] at hl hl'
          rcases eq_or_ne k₁ k with rfl | hne
          · rw [lookup_update hu] at hl
            rw [lookup_update hu'] at hl'
            obtain rfl := Option.some.inj hl
            obtain rfl := Option.some.inj hl'
            exact hv
          · rw [lookup_update_ne hu hne] at hl
            rw [lookup_update_ne hu' hne] at hl'
            exact h.2 k₁ v₁ v₁' hl hl'

/-- Deleting a key from both. -/
theorem Rel.delete (h : Rel R m m') (k : κ) : Rel R (m.delete k) (m'.delete k) := by
  refine ⟨?_, fun k₁ v v' hl hl' => ?_⟩
  · have hkeys := h.1
    rw [keys, keys] at hkeys
    rw [keys, keys, BoundedMap.delete, BoundedMap.delete, AList.keys_erase, AList.keys_erase,
      hkeys]
  · rcases eq_or_ne k₁ k with rfl | hne
    · exact absurd hl (by simp)
    · rw [lookup_delete_ne _ hne] at hl hl'
      exact h.2 k₁ v v' hl hl'

end Rel

end BoundedMap
