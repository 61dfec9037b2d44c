import OrderedState.Table

/-!
# Tables with one entry per key

`set` and `erase` never put a key into a table twice, so every table the controller builds
from the empty one has its keys without repetition. On such a table an entry can be taken out:
the table is a permutation of that entry followed by the table without its key, and `set`
puts the new entry in the same place. Everything summed or concatenated over the entries (the
parked requests of every key, the waiting requests of every pair, the requests in flight of
one record) then changes by the old and the new entry alone.
-/

namespace OrderedState.Table

variable {κ α : Type}

/-- The keys of a table's entries, in order. -/
def keys (t : Table κ α) : List κ := t.map (·.1)

@[simp] theorem keys_nil : keys ([] : Table κ α) = [] := rfl

@[simp] theorem keys_cons (k : κ) (v : α) (t : Table κ α) : keys ((k, v) :: t) = k :: keys t :=
  rfl

@[simp] theorem keys_append (t u : Table κ α) : keys (t ++ u) = keys t ++ keys u := by
  simp [keys]

variable [DecidableEq κ]

theorem get?_eq_none_iff {t : Table κ α} {k : κ} : t.get? k = none ↔ k ∉ t.keys := by
  induction t with
  | nil => simp
  | cons e rest ih =>
    obtain ⟨j, w⟩ := e
    by_cases h : j = k
    · simp [get?, h]
    · simp [get?, h, ih, Ne.symm h]

theorem mem_of_get?_eq_some {t : Table κ α} {k : κ} {v : α} (h : t.get? k = some v) :
    (k, v) ∈ t := by
  induction t with
  | nil => simp at h
  | cons e rest ih =>
    obtain ⟨j, w⟩ := e
    by_cases hj : j = k
    · simp only [get?, hj, if_true, Option.some.injEq] at h
      simp [hj, h]
    · simp only [get?, hj, if_false] at h
      exact List.mem_cons_of_mem _ (ih h)

theorem get?_eq_some_of_mem {t : Table κ α} {k : κ} {v : α} (hk : t.keys.Nodup)
    (h : (k, v) ∈ t) : t.get? k = some v := by
  induction t with
  | nil => simp at h
  | cons e rest ih =>
    obtain ⟨j, w⟩ := e
    simp only [keys_cons, List.nodup_cons] at hk
    rcases List.mem_cons.mp h with same | later
    · simp only [Prod.mk.injEq] at same
      obtain ⟨rfl, rfl⟩ := same
      simp [get?]
    · have hj : j ≠ k := by
        rintro rfl
        exact hk.1 (List.mem_map.mpr ⟨_, later, rfl⟩)
      simp [get?, hj, ih hk.2 later]

/-- Every entry of a table with `k` set to `v` has a property when `v` has it at `k` and the
other entries had it. -/
theorem forall_get?_set {t : Table κ α} {k : κ} {v : α} {P : κ → α → Prop} (hv : P k v)
    (ht : ∀ k' a, k ≠ k' → t.get? k' = some a → P k' a) :
    ∀ k' a, (t.set k v).get? k' = some a → P k' a := by
  intro k' a h
  by_cases hk : k = k'
  · subst hk
    rw [get?_set_self] at h
    cases h
    exact hv
  · rw [get?_set_ne _ _ hk] at h
    exact ht k' a hk h

/-- An entry of a table with `k` set to `v` is the new one, or an entry it had. -/
theorem get?_set_cases {t : Table κ α} {k k' : κ} {v a : α} (h : (t.set k v).get? k' = some a) :
    k' = k ∧ a = v ∨ t.get? k' = some a := by
  by_cases hk : k = k'
  · subst hk
    rw [get?_set_self] at h
    exact .inl ⟨rfl, (Option.some.inj h).symm⟩
  · rw [get?_set_ne _ _ hk] at h
    exact .inr h

/-- An entry left after erasing a key was there before. -/
theorem get?_of_get?_erase {t : Table κ α} {k k' : κ} {v : α} (h : (t.erase k).get? k' = some v) :
    t.get? k' = some v := by
  by_cases hk : k = k'
  · subst hk
    rw [get?_erase_self] at h
    cases h
  · rwa [get?_erase_ne _ hk] at h

theorem set_eq_append {t : Table κ α} {k : κ} (v : α) (h : t.get? k = none) :
    t.set k v = t ++ [(k, v)] := by
  induction t with
  | nil => rfl
  | cons e rest ih =>
    obtain ⟨j, w⟩ := e
    by_cases hj : j = k
    · simp [get?, hj] at h
    · simp only [get?, hj, if_false] at h
      simp [set, hj, ih h]

theorem erase_eq_self {t : Table κ α} {k : κ} (h : t.get? k = none) : t.erase k = t := by
  have hk := get?_eq_none_iff.mp h
  apply List.filter_eq_self.mpr
  rintro ⟨j, w⟩ hmem
  have : j ≠ k := by
    rintro rfl
    exact hk (List.mem_map.mpr ⟨_, hmem, rfl⟩)
  simpa using this

theorem keys_set_subset (t : Table κ α) (k : κ) (v : α) :
    ∀ j ∈ (t.set k v).keys, j = k ∨ j ∈ t.keys := by
  induction t with
  | nil => simp [set]
  | cons e rest ih =>
    obtain ⟨j, w⟩ := e
    by_cases hj : j = k
    · simp [set, hj]
    · intro i hi
      simp only [set, hj, if_false, keys_cons, List.mem_cons] at hi
      rcases hi with rfl | hi
      · exact .inr (by simp)
      · rcases ih i hi with h | h
        · exact .inl h
        · exact .inr (by simp [h])

theorem nodup_keys_set {t : Table κ α} (hk : t.keys.Nodup) (k : κ) (v : α) :
    (t.set k v).keys.Nodup := by
  induction t with
  | nil => simp [set]
  | cons e rest ih =>
    obtain ⟨j, w⟩ := e
    simp only [keys_cons, List.nodup_cons] at hk
    by_cases hj : j = k
    · subst hj
      simpa [set] using hk
    · simp only [set, hj, if_false, keys_cons, List.nodup_cons]
      refine ⟨fun hmem => ?_, ih hk.2⟩
      rcases keys_set_subset rest k v j hmem with h | h
      · exact hj h
      · exact hk.1 h

/-- Erasing a key keeps the other keys, in order. -/
theorem keys_erase_sublist (t : Table κ α) (k : κ) : (t.erase k).keys.Sublist t.keys :=
  List.Sublist.map _ List.filter_sublist

theorem nodup_keys_erase {t : Table κ α} (hk : t.keys.Nodup) (k : κ) : (t.erase k).keys.Nodup :=
  hk.sublist (keys_erase_sublist t k)

/-- An entry of a table with one entry per key can be moved to the front, past the entries
without its key. -/
theorem perm_cons_erase {t : Table κ α} {k : κ} {v : α} (hk : t.keys.Nodup)
    (h : t.get? k = some v) : t.Perm ((k, v) :: t.erase k) := by
  induction t with
  | nil => simp at h
  | cons e rest ih =>
    obtain ⟨j, w⟩ := e
    simp only [keys_cons, List.nodup_cons] at hk
    by_cases hj : j = k
    · subst hj
      simp only [get?, if_true, Option.some.injEq] at h
      subst h
      have hrest : Table.erase rest j = rest := erase_eq_self (get?_eq_none_iff.mpr hk.1)
      simp only [erase, ne_eq, not_true_eq_false, decide_false, List.filter_cons_of_neg,
        Bool.false_eq_true, not_false_eq_true]
      exact List.Perm.cons _ (by rw [← erase, hrest])
    · simp only [get?, hj, if_false] at h
      have herase : Table.erase ((j, w) :: rest) k = (j, w) :: Table.erase rest k := by
        simp [erase, hj]
      rw [herase]
      exact ((ih hk.2 h).cons _).trans (List.Perm.swap _ _ _)

theorem erase_set_self (t : Table κ α) (k : κ) (v : α) :
    Table.erase (t.set k v) k = t.erase k := by
  induction t with
  | nil => simp [set, erase]
  | cons e rest ih =>
    obtain ⟨j, u⟩ := e
    by_cases hj : j = k
    · subst hj
      simp [set, erase]
    · simp only [set, hj, if_false, erase] at ih ⊢
      simpa [hj] using ih

/-- After `set`, the new entry stands where the old one stood, or at the end. -/
theorem set_perm_cons_erase {t : Table κ α} (hk : t.keys.Nodup) (k : κ) (v : α) :
    (t.set k v).Perm ((k, v) :: t.erase k) := by
  have hset := perm_cons_erase (nodup_keys_set hk k v) (get?_set_self t k v)
  rwa [erase_set_self] at hset

/-- What a table concatenates over its values, after `set`: the new value's part, then the
rest. -/
theorem flatMap_set_perm {β : Type} {t : Table κ α} (hk : t.keys.Nodup) (k : κ) (v : α)
    (g : α → List β) :
    ((t.set k v).flatMap (fun e => g e.2)).Perm (g v ++ (t.erase k).flatMap (fun e => g e.2)) := by
  simpa using (set_perm_cons_erase hk k v).flatMap_right (fun e => g e.2)

/-- What a table concatenates over its values: the part of one entry, then the rest. -/
theorem flatMap_perm_erase {β : Type} {t : Table κ α} {k : κ} {v : α} (hk : t.keys.Nodup)
    (h : t.get? k = some v) (g : α → List β) :
    (t.flatMap (fun e => g e.2)).Perm (g v ++ (t.erase k).flatMap (fun e => g e.2)) := by
  simpa using (perm_cons_erase hk h).flatMap_right (fun e => g e.2)

end OrderedState.Table
