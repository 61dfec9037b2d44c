/-!
# Tables

A table is a finite map kept as a list of entries, one per key, in the order the keys were
first set. The controller keeps its bookkeeping in tables: requests in flight by id, records by
id, key owners by key, and queues by (key, state) pair. Only look-ups and sums over entries are
ever observed, so the entry order carries no meaning.

The four laws below say what `set` and `erase` do to `get?`; after them nobody needs to unfold
the operations.
-/

namespace OrderedState

/-- A finite map from `κ` to `α` as a list of entries. -/
abbrev Table (κ : Type) (α : Type) := List (κ × α)

namespace Table

variable {κ α : Type} [DecidableEq κ]

/-- The value of the first entry with key `k`. -/
def get? (t : Table κ α) (k : κ) : Option α :=
  match t with
  | [] => none
  | (j, v) :: rest => if j = k then some v else get? rest k

/-- The table with `k` mapped to `v`: the first entry with key `k` is replaced in place, or a
new entry is added at the end. -/
def set (t : Table κ α) (k : κ) (v : α) : Table κ α :=
  match t with
  | [] => [(k, v)]
  | (j, w) :: rest => if j = k then (k, v) :: rest else (j, w) :: set rest k v

/-- The table without entries for `k`. -/
def erase (t : Table κ α) (k : κ) : Table κ α := t.filter fun e => decide (e.1 ≠ k)

/-- Whether some entry has key `k`. -/
def contains (t : Table κ α) (k : κ) : Bool := (t.get? k).isSome

@[simp] theorem get?_nil (k : κ) : get? ([] : Table κ α) k = none := rfl

@[simp] theorem get?_set_self (t : Table κ α) (k : κ) (v : α) : (t.set k v).get? k = some v := by
  induction t with
  | nil => simp [set, get?]
  | cons e rest ih =>
    obtain ⟨j, w⟩ := e
    by_cases h : j = k
    · simp [set, get?, h]
    · simp [set, get?, h, ih]

theorem get?_set_ne (t : Table κ α) {k k' : κ} (v : α) (h : k ≠ k') :
    (t.set k v).get? k' = t.get? k' := by
  induction t with
  | nil => simp [set, get?, h]
  | cons e rest ih =>
    obtain ⟨j, w⟩ := e
    by_cases hj : j = k
    · subst hj
      simp [set, get?, h]
    · simp only [set, hj, if_false, get?]
      split <;> simp [ih]

@[simp] theorem get?_erase_self (t : Table κ α) (k : κ) : (t.erase k).get? k = none := by
  induction t with
  | nil => rfl
  | cons e rest ih =>
    obtain ⟨j, w⟩ := e
    by_cases h : j = k
    · simp [erase, h] at ih ⊢
      exact ih
    · simp [erase, h, get?] at ih ⊢
      exact ih

theorem get?_erase_ne (t : Table κ α) {k k' : κ} (h : k ≠ k') :
    (t.erase k).get? k' = t.get? k' := by
  induction t with
  | nil => rfl
  | cons e rest ih =>
    obtain ⟨j, w⟩ := e
    by_cases hj : j = k
    · subst hj
      simp [erase, get?, h] at ih ⊢
      exact ih
    · simp [erase, get?, hj] at ih ⊢
      split <;> simp [ih]

end Table

end OrderedState
