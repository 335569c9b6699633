import Std.Data.TreeMap.Lemmas
import Mathlib.Data.List.Nodup
import Mathlib.Data.List.Perm.Subperm

/-! # Tables, looked up by key -/

namespace Timeshift

open Std

variable {κ α β : Type} [Ord κ] {m : TreeMap κ α} {k a : κ} {v : α}

theorem values_eq_map (m : TreeMap κ α) : m.values = m.toList.map (·.2) := by
  have hfold : m.values = m.foldr (fun _ v l => v :: l) [] := rfl
  rw [hfold, TreeMap.foldr_eq_foldr_toList]
  induction m.toList with
  | nil => rfl
  | cons p rest ih => rw [List.foldr_cons, ih, List.map_cons]

theorem values_map (m : TreeMap κ α) (f : α → β) : (m.map fun _ => f).values = m.values.map f := by
  rw [values_eq_map, values_eq_map, TreeMap.toList_map, List.map_map, List.map_map]
  rfl

theorem length_values (m : TreeMap κ α) : m.values.length = m.size := by
  rw [values_eq_map, List.length_map, TreeMap.length_toList]

variable [TransOrd κ]

theorem mem_iff_get : k ∈ m ↔ ∃ v, m[k]? = some v := by
  rw [TreeMap.mem_iff_isSome_getElem?, Option.isSome_iff_exists]

theorem mem_of_get (h : m[k]? = some v) : k ∈ m := mem_iff_get.mpr ⟨v, h⟩

variable [LawfulEqOrd κ]

theorem get_insert [DecidableEq κ] : (m.insert k v)[a]? = if k = a then some v else m[a]? := by
  simp only [TreeMap.getElem?_insert, LawfulEqOrd.compare_eq_iff_eq]

theorem get_erase [DecidableEq κ] : (m.erase k)[a]? = if k = a then none else m[a]? := by
  simp only [TreeMap.getElem?_erase, LawfulEqOrd.compare_eq_iff_eq]

/-- Of the values with one key the last one stays. -/
theorem get_insertAll [DecidableEq κ] (key : α → κ) (l : List α) (m : TreeMap κ α) (k : κ) :
    (l.foldl (fun m v => m.insert (key v) v) m)[k]? =
      ((l.filter (key · = k)).getLast?).or m[k]? := by
  induction l generalizing m with
  | nil => rfl
  | cons v rest ih =>
    rw [List.foldl_cons, ih, get_insert]
    by_cases h : key v = k
    · rw [List.filter_cons_of_pos (by simpa using h), if_pos h]
      cases hlast : (rest.filter (key · = k)).getLast? <;> simp [List.getLast?_cons, hlast]
    · rw [List.filter_cons_of_neg (by simpa using h), if_neg h]

theorem get_eraseAll [DecidableEq κ] (ks : List κ) (m : TreeMap κ α) (k : κ) :
    (ks.foldl (·.erase ·) m)[k]? = if k ∈ ks then none else m[k]? := by
  induction ks generalizing m with
  | nil => rfl
  | cons a rest ih =>
    rw [List.foldl_cons, ih, get_erase]
    by_cases h : a = k
    · simp [h]
    · simp [h, Ne.symm h]

theorem mem_values : v ∈ m.values ↔ ∃ k : κ, m[k]? = some v := by
  simp [values_eq_map]

/-- The values stand in the order of their keys. -/
theorem map_values_eq_keys {key : α → κ} (h : ∀ (k : κ) (v : α), m[k]? = some v → key v = k) :
    m.values.map key = m.keys := by
  rw [values_eq_map, ← TreeMap.map_fst_toList_eq_keys, List.map_map]
  refine List.map_congr_left fun p hp => ?_
  exact h p.1 p.2 (TreeMap.mem_toList_iff_getElem?_eq_some.mp hp)

/-- Only one value has a given key. -/
theorem filter_values_key [DecidableEq κ] {key : α → κ}
    (h : ∀ (k : κ) (v : α), m[k]? = some v → key v = k) (k : κ) :
    m.values.filter (key · = k) = (m[k]?).toList := by
  have hmem : ∀ v, v ∈ m.values.filter (key · = k) ↔ m[k]? = some v := by
    intro v
    rw [List.mem_filter, decide_eq_true_eq, mem_values]
    constructor
    · rintro ⟨⟨a, ha⟩, hk⟩
      rwa [← hk, h a v ha]
    · exact fun hv => ⟨⟨k, hv⟩, h k v hv⟩
  have hnodup : (m.values.filter (key · = k)).Nodup := by
    have hkeys : (m.values.map key).Nodup := by
      rw [map_values_eq_keys h]
      exact TreeMap.nodup_keys
    exact (hkeys.sublist (List.filter_sublist.map key)).of_map
  cases hget : m[k]? with
  | none =>
    refine List.eq_nil_iff_forall_not_mem.mpr fun v hv => ?_
    rw [hmem, hget] at hv
    cases hv
  | some v =>
    refine List.perm_singleton.mp ?_
    refine (List.perm_ext_iff_of_nodup hnodup (List.nodup_singleton v)).mpr fun w => ?_
    rw [hmem, hget, List.mem_singleton, Option.some_inj, eq_comm]

theorem values_eq_of_get {m' : TreeMap κ α} (h : ∀ k : κ, m[k]? = m'[k]?) : m.values = m'.values :=
  (TreeMap.Equiv.of_forall_constGet?_eq h).values_eq

/-- The keys stand in order, so the list of them is known by its members. -/
theorem keys_eq_iff {m' : TreeMap κ β} : m.keys = m'.keys ↔ ∀ k, k ∈ m ↔ k ∈ m' := by
  constructor
  · intro h k
    rw [← TreeMap.mem_keys, h, TreeMap.mem_keys]
  · intro h
    have hperm : m.keys.Perm m'.keys :=
      (List.perm_ext_iff_of_nodup TreeMap.nodup_keys TreeMap.nodup_keys).mpr fun k => by
        rw [TreeMap.mem_keys, TreeMap.mem_keys, h]
    refine hperm.eq_of_pairwise (fun x y _ _ hxy hyx => ?_) TreeMap.ordered_keys
      TreeMap.ordered_keys
    exact absurd hyx (OrientedCmp.not_lt_of_lt hxy)

/-- The old value of the key goes, if there was one. -/
theorem perm_values_insert [DecidableEq κ] (m : TreeMap κ α) (k : κ) (v : α) :
    ∃ rest, rest.Sublist m.values ∧ (m.insert k v).values.Perm (v :: rest) := by
  refine ⟨(m.toList.filter fun p => ¬ k == p.1).map (·.2), ?_, ?_⟩
  · rw [values_eq_map]
    exact List.filter_sublist.map _
  · rw [values_eq_map]
    exact TreeMap.toList_insert_perm.map _

theorem size_le_of_keys {m' : TreeMap κ α} (h : ∀ k, k ∈ m' → k ∈ m) : m'.size ≤ m.size := by
  rw [← TreeMap.length_keys, ← TreeMap.length_keys]
  refine (List.subperm_of_subset TreeMap.nodup_keys fun k hk => ?_).length_le
  exact TreeMap.mem_keys.mpr (h k (TreeMap.mem_keys.mp hk))

/-! ## Values that stand under their own keys -/

/-- Every value stands under its own key, and the keys have a property. -/
def IsIndexed (m : TreeMap κ α) (key : α → κ) (P : κ → Prop) : Prop :=
  ∀ (k : κ) (v : α), m[k]? = some v → key v = k ∧ P k

namespace IsIndexed

variable {key : α → κ} {P Q : κ → Prop}

omit [LawfulEqOrd κ] in
theorem empty : IsIndexed (∅ : TreeMap κ α) key P := by
  intro k v hv
  simp at hv

omit [TransOrd κ] [LawfulEqOrd κ] in
theorem mono (h : IsIndexed m key P) (hPQ : ∀ k, P k → Q k) : IsIndexed m key Q :=
  fun k v hv => ⟨(h k v hv).1, hPQ k (h k v hv).2⟩

omit [LawfulEqOrd κ] in
theorem of_mem (h : IsIndexed m key P) (hk : k ∈ m) : P k := by
  obtain ⟨v, hv⟩ := mem_iff_get.mp hk
  exact (h k v hv).2

/-- The keys are those of the values. -/
theorem values (h : IsIndexed m key P) : IsIndexed m key (· ∈ m.values.map key) := by
  intro k v hv
  obtain ⟨hkey, -⟩ := h k v hv
  exact ⟨hkey, List.mem_map.mpr ⟨v, mem_values.mpr ⟨k, hv⟩, hkey⟩⟩

theorem insert [DecidableEq κ] (h : IsIndexed m key P) (hv : P (key v)) :
    IsIndexed (m.insert (key v) v) key P := by
  intro k w hw
  rw [get_insert] at hw
  split at hw
  · next hk =>
    obtain rfl := Option.some.inj hw
    exact ⟨hk, hk ▸ hv⟩
  · exact h k w hw

theorem insertAll [DecidableEq κ] {l : List α} (h : IsIndexed m key P) (hl : ∀ v ∈ l, P (key v)) :
    IsIndexed (l.foldl (fun m v => m.insert (key v) v) m) key P := by
  induction l generalizing m with
  | nil => exact h
  | cons v rest ih =>
    obtain ⟨hv, hrest⟩ := List.forall_mem_cons.mp hl
    exact ih (h.insert hv) hrest

theorem erase [DecidableEq κ] (h : IsIndexed m key P) (k : κ) : IsIndexed (m.erase k) key P := by
  intro a v hv
  rw [get_erase] at hv
  split at hv
  · cases hv
  · exact h a v hv

theorem eraseAll [DecidableEq κ] (h : IsIndexed m key P) (ks : List κ) :
    IsIndexed (ks.foldl (·.erase ·) m) key P := by
  induction ks generalizing m with
  | nil => exact h
  | cons k rest ih => exact ih (h.erase k)

end IsIndexed

end Timeshift
