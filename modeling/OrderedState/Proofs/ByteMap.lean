import OrderedState.Store.Basic

/-!
# Byte strings in order, and maps kept in that order

`bytesLt` is a strict total order on byte strings: a byte decides where two strings first differ,
and a proper prefix comes first (`bytesLt_cons` says so in one line). A `ByteMap` is read by
`get?`, and the store keeps its maps `Sorted`: keys strictly ascending, so each key once.

Each map operation gets its lookup equation and keeps the order:

* `get?_insert`, `insert_sorted`: an insertion answers the new value for its key and keeps the
  rest; it lands in place.
* `get?_insertAll`: after a batch of insertions a key has the value of the last entry of the
  batch with that key, or its old value when the batch does not name it.
* `get?_erase`, `erase_sorted`: an erased key has no value and the rest keep theirs.
-/

namespace OrderedState

/-! ## The byte-wise order -/

/-- Two non-empty strings compare by their first bytes, and by the rest where those are equal. -/
theorem bytesLt_cons (x y : UInt8) (xs ys : Bytes) :
    bytesLt (x :: xs) (y :: ys) = (decide (x < y) || (decide (x = y) && bytesLt xs ys)) := by
  simp only [bytesLt]
  by_cases hxy : x < y
  · simp [hxy]
  · by_cases hyx : y < x
    · have hne : x ≠ y := fun h => by subst h; exact hxy hyx
      simp [hxy, hyx, hne]
    · -- neither byte is smaller, so they are equal
      have heq : x = y := UInt8.toNat_inj.mp (by
        rw [UInt8.lt_iff_toNat_lt] at hxy hyx
        omega)
      simp [heq]

@[simp] theorem bytesLt_nil_right (a : Bytes) : bytesLt a [] = false := by
  cases a <;> rfl

@[simp] theorem bytesLt_self (a : Bytes) : bytesLt a a = false := by
  induction a with
  | nil => rfl
  | cons x xs ih => simp [bytesLt_cons, ih]

theorem bytesLt_trans : ∀ {a b c : Bytes}, bytesLt a b = true → bytesLt b c = true →
    bytesLt a c = true
  | _, _, [], _, h => by simp at h
  | [], [], _ :: _, h, _ => by simp [bytesLt] at h
  | [], _ :: _, _ :: _, _, _ => rfl
  | _ :: _, [], _, h, _ => by simp at h
  | x :: xs, y :: ys, z :: zs, h₁, h₂ => by
    simp only [bytesLt_cons, Bool.or_eq_true, Bool.and_eq_true, decide_eq_true_eq] at h₁ h₂ ⊢
    rcases h₁ with hxy | ⟨rfl, hs₁⟩ <;> rcases h₂ with hyz | ⟨rfl, hs₂⟩
    · rw [UInt8.lt_iff_toNat_lt] at hxy hyz ⊢
      left; omega
    · exact .inl hxy
    · exact .inl hyz
    · exact .inr ⟨rfl, bytesLt_trans hs₁ hs₂⟩

/-- Of two different strings one is below the other. -/
theorem bytesLt_total : ∀ {a b : Bytes}, a ≠ b → bytesLt a b = true ∨ bytesLt b a = true
  | [], [], h => absurd rfl h
  | [], _ :: _, _ => .inl rfl
  | _ :: _, [], _ => .inr rfl
  | x :: xs, y :: ys, h => by
    simp only [bytesLt_cons, Bool.or_eq_true, Bool.and_eq_true, decide_eq_true_eq]
    by_cases hxy : x = y
    · subst hxy
      have hs : xs ≠ ys := fun h' => h (by rw [h'])
      rcases bytesLt_total hs with h' | h'
      · exact .inl (.inr ⟨rfl, h'⟩)
      · exact .inr (.inr ⟨rfl, h'⟩)
    · have : x.toNat ≠ y.toNat := fun h' => hxy (UInt8.toNat_inj.mp h')
      simp only [UInt8.lt_iff_toNat_lt]
      omega

namespace ByteMap

/-! ## Sorted maps -/

/-- Keys strictly ascending in byte-wise order, so each key at most once. -/
def Sorted (m : ByteMap) : Prop := m.Pairwise fun x y => bytesLt x.1 y.1 = true

@[simp] theorem sorted_nil : Sorted [] := List.Pairwise.nil

theorem sorted_cons {e : Bytes × Bytes} {m : ByteMap} :
    Sorted (e :: m) ↔ (∀ e' ∈ m, bytesLt e.1 e'.1 = true) ∧ Sorted m :=
  List.pairwise_cons

@[simp] theorem get?_nil (k : Bytes) : get? [] k = none := rfl

theorem get?_cons (k' v : Bytes) (m : ByteMap) (k : Bytes) :
    get? ((k', v) :: m) k = if k = k' then some v else get? m k := by
  simp only [get?, List.lookup_cons]
  by_cases h : k = k'
  · simp [h]
  · rw [beq_false_of_ne h]
    simp [h]

/-- A map is empty exactly when no key has a value. -/
theorem eq_nil_iff_get? {m : ByteMap} : m = [] ↔ ∀ k, m.get? k = none := by
  constructor
  · rintro rfl k
    rfl
  · intro h
    cases m with
    | nil => rfl
    | cons e rest =>
      obtain ⟨k, v⟩ := e
      have := h k
      simp [get?_cons] at this

/-- A key below every key of a map has no value there. -/
theorem get?_eq_none_of_below {k : Bytes} {m : ByteMap} (h : ∀ e ∈ m, bytesLt k e.1 = true) :
    m.get? k = none := by
  induction m with
  | nil => rfl
  | cons e rest ih =>
    obtain ⟨k₁, v₁⟩ := e
    have hne : k ≠ k₁ := by
      rintro rfl
      simpa using h (k, v₁) List.mem_cons_self
    rw [get?_cons, if_neg hne]
    exact ih fun e he => h e (List.mem_cons_of_mem _ he)

/-- Two sorted maps that give every key the same value are the same map. -/
theorem eq_of_get? {m₁ m₂ : ByteMap} (h₁ : Sorted m₁) (h₂ : Sorted m₂)
    (h : ∀ k, m₁.get? k = m₂.get? k) : m₁ = m₂ := by
  induction m₁ generalizing m₂ with
  | nil => exact (eq_nil_iff_get?.mpr fun k => (h k).symm.trans rfl).symm
  | cons e₁ rest₁ ih =>
    obtain ⟨k₁, v₁⟩ := e₁
    cases m₂ with
    | nil => simpa [get?_cons] using h k₁
    | cons e₂ rest₂ =>
      obtain ⟨k₂, v₂⟩ := e₂
      rw [sorted_cons] at h₁ h₂
      -- a first key below the other map's first key has a value in one map only
      have hlt : ∀ {ka kb va vb ra rb}, Sorted ((kb, vb) :: rb) →
          (∀ k, get? ((ka, va) :: ra) k = get? ((kb, vb) :: rb) k) → bytesLt ka kb = true →
          False := by
        intro ka kb va vb ra rb hb hk hab
        have hnone : get? ((kb, vb) :: rb) ka = none := by
          refine get?_eq_none_of_below fun e he => ?_
          rcases List.mem_cons.mp he with rfl | he
          · exact hab
          · exact bytesLt_trans hab ((sorted_cons.mp hb).1 e he)
        simpa [get?_cons, hnone] using hk ka
      by_cases hk : k₁ = k₂
      · subst hk
        have hv : v₁ = v₂ := by simpa [get?_cons] using h k₁
        subst hv
        -- the first keys agree, and below them neither rest has a value
        have hrest : ∀ k, get? rest₁ k = get? rest₂ k := by
          intro k
          by_cases hk : k = k₁
          · subst hk
            rw [get?_eq_none_of_below h₁.1, get?_eq_none_of_below h₂.1]
          · simpa [get?_cons, hk] using h k
        rw [ih h₁.2 h₂.2 hrest]
      · rcases bytesLt_total hk with hab | hba
        · exact (hlt (sorted_cons.mpr h₂) h hab).elim
        · exact (hlt (sorted_cons.mpr h₁) (fun k => (h k).symm) hba).elim

/-! ## Insertion -/

theorem get?_insert (k v : Bytes) (m : ByteMap) (k' : Bytes) :
    (insert k v m).get? k' = if k' = k then some v else m.get? k' := by
  induction m with
  | nil => simp [insert, get?_cons]
  | cons e rest ih =>
    obtain ⟨k₁, v₁⟩ := e
    simp only [insert]
    split
    · simp [get?_cons]
    · split
      · -- the key is replaced in place
        next heq =>
          subst heq
          by_cases h : k' = k <;> simp [get?_cons, h]
      · next hne =>
          rw [get?_cons, ih, get?_cons]
          by_cases h : k' = k
          · subst h
            simp [hne]
          · simp [h]

theorem mem_insert {k v : Bytes} {m : ByteMap} {e : Bytes × Bytes} (h : e ∈ insert k v m) :
    e = (k, v) ∨ e ∈ m := by
  induction m with
  | nil => simpa [insert] using h
  | cons e' rest ih =>
    simp only [insert] at h
    split at h
    · simpa using h
    · split at h
      · simp only [List.mem_cons] at h
        rcases h with h | h
        · exact .inl h
        · exact .inr (List.mem_cons_of_mem _ h)
      · simp only [List.mem_cons] at h
        rcases h with h | h
        · exact .inr (h ▸ List.mem_cons_self)
        · rcases ih h with h' | h'
          · exact .inl h'
          · exact .inr (List.mem_cons_of_mem _ h')

theorem insert_sorted (k v : Bytes) {m : ByteMap} (hm : Sorted m) : Sorted (insert k v m) := by
  induction m with
  | nil => simp [insert, Sorted]
  | cons e rest ih =>
    obtain ⟨k₁, v₁⟩ := e
    rw [sorted_cons] at hm
    simp only [insert]
    split
    · next hlt =>
      -- the new key goes first: below the old first key, so below all of them
      refine sorted_cons.mpr ⟨?_, sorted_cons.mpr hm⟩
      intro e' he'
      rcases List.mem_cons.mp he' with rfl | he'
      · exact hlt
      · exact bytesLt_trans hlt (hm.1 e' he')
    · split
      · next heq =>
        subst heq
        exact sorted_cons.mpr hm
      · next hnlt hne =>
        -- the old first key stays first: it is below the new key
        have hgt : bytesLt k₁ k = true := by
          rcases bytesLt_total hne with h | h
          · exact absurd h hnlt
          · exact h
        refine sorted_cons.mpr ⟨?_, ih hm.2⟩
        intro e' he'
        rcases mem_insert he' with rfl | he'
        · exact hgt
        · exact hm.1 e' he'

theorem insert_ne_nil (k v : Bytes) (m : ByteMap) : insert k v m ≠ [] := by
  cases m with
  | nil => simp [insert]
  | cons e rest =>
    simp only [insert]
    split
    · simp
    · split <;> simp

@[simp] theorem insertAll_nil (m : ByteMap) : m.insertAll [] = m := rfl

@[simp] theorem insertAll_cons (m : ByteMap) (e : Bytes × Bytes) (es : List (Bytes × Bytes)) :
    m.insertAll (e :: es) = (insert e.1 e.2 m).insertAll es := rfl

/-- A key has the value of the last entry of the batch with that key, or its old value. -/
theorem get?_insertAll (m : ByteMap) (es : List (Bytes × Bytes)) (k : Bytes) :
    (m.insertAll es).get? k = (es.reverse.lookup k).or (m.get? k) := by
  induction es generalizing m with
  | nil => simp
  | cons e es ih =>
    rw [insertAll_cons, ih, get?_insert, List.reverse_cons, List.lookup_append, Option.or_assoc]
    congr 1
    obtain ⟨k₁, v₁⟩ := e
    rw [show List.lookup k [(k₁, v₁)] = get? [(k₁, v₁)] k from rfl, get?_cons]
    by_cases h : k = k₁ <;> simp [h]

theorem insertAll_sorted {m : ByteMap} (es : List (Bytes × Bytes)) (hm : Sorted m) :
    Sorted (m.insertAll es) := by
  induction es generalizing m with
  | nil => exact hm
  | cons e es ih => exact ih (insert_sorted e.1 e.2 hm)

theorem insertAll_ne_nil (m : ByteMap) {es : List (Bytes × Bytes)} (h : es ≠ []) :
    m.insertAll es ≠ [] := by
  induction es generalizing m with
  | nil => exact absurd rfl h
  | cons e es ih =>
    rw [insertAll_cons]
    cases es with
    | nil => exact insert_ne_nil e.1 e.2 m
    | cons _ _ => exact ih _ (List.cons_ne_nil _ _)

/-! ## Removal -/

theorem get?_erase (m : ByteMap) (k k' : Bytes) :
    (m.erase k).get? k' = if k' = k then none else m.get? k' := by
  induction m with
  | nil => simp [erase]
  | cons e rest ih =>
    obtain ⟨k₁, v₁⟩ := e
    simp only [erase] at ih ⊢
    by_cases h : k₁ = k
    · subst h
      rw [List.filter_cons_of_neg (by simp), ih, get?_cons]
      by_cases h' : k' = k₁ <;> simp [h']
    · rw [List.filter_cons_of_pos (by simpa using h), get?_cons, ih, get?_cons]
      by_cases h' : k' = k
      · subst h'
        simp [Ne.symm h]
      · simp [h']

theorem erase_sorted (k : Bytes) {m : ByteMap} (hm : Sorted m) : Sorted (m.erase k) :=
  hm.sublist List.filter_sublist

end ByteMap

end OrderedState
