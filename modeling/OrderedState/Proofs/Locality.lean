import OrderedState.Store.Basic

/-!
# The store works one address at a time

`Store.execute r` reads and writes what `r.address` holds and nothing else: every other address
keeps its contents, and the response and the new contents at `r.address` depend on the old
contents there alone. So what a run of requests leaves at an address, and what each request of
the run answers, depend only on the requests at that address, in their order:

* `get?_executeBatch_filter`: an address ends with what the requests at that address leave
  when run alone;
* `execute_after_filter`: a request answers what it answers after the requests before it at
  its address, run alone.

Two runs that agree at every address on the order of its requests therefore end with the same
contents and give every request the same answer.
-/

namespace OrderedState.Store

/-! ## Setting and erasing an address -/

theorem lookup_filter_ne {l : List (Address × Contents)} {a a' : Address} (h : a' ≠ a) :
    (l.filter (·.1 ≠ a)).lookup a' = l.lookup a' := by
  induction l with
  | nil => rfl
  | cons e rest ih =>
    obtain ⟨b, c⟩ := e
    by_cases hb : b = a
    · subst hb
      rw [List.filter_cons_of_neg (by simp), ih, List.lookup_cons, beq_false_of_ne h]
    · rw [List.filter_cons_of_pos (by simpa using hb), List.lookup_cons, List.lookup_cons, ih]

theorem lookup_filter_self (l : List (Address × Contents)) (a : Address) :
    (l.filter (·.1 ≠ a)).lookup a = none := by
  induction l with
  | nil => rfl
  | cons e rest ih =>
    obtain ⟨b, c⟩ := e
    by_cases hb : b = a
    · subst hb
      rw [List.filter_cons_of_neg (by simp), ih]
    · rw [List.filter_cons_of_pos (by simpa using hb), List.lookup_cons,
        beq_false_of_ne (Ne.symm hb), ih]

@[simp] theorem get?_set_self (s : Store) (a : Address) (c : Contents) :
    (s.set a c).get? a = some c := by
  simp [get?, set]

theorem get?_set_ne (s : Store) {a a' : Address} (c : Contents) (h : a' ≠ a) :
    (s.set a c).get? a' = s.get? a' := by
  simp only [get?, set, List.lookup_cons, beq_false_of_ne h, lookup_filter_ne h]

@[simp] theorem get?_erase_self (s : Store) (a : Address) : (s.erase a).get? a = none :=
  lookup_filter_self s.entries a

theorem get?_erase_ne (s : Store) {a a' : Address} (h : a' ≠ a) :
    (s.erase a).get? a' = s.get? a' :=
  lookup_filter_ne h

/-! ## One request -/

/-- A request leaves every other address as it was. -/
theorem get?_apply_ne {s s' : Store} {r : Request} {resp : Response}
    (h : s.apply r = .ok (resp, s')) {a : Address} (ha : a ≠ r.address) :
    s'.get? a = s.get? a := by
  simp only [apply] at h
  -- only the contents at the request's address decide the branch
  generalize s.get? r.address = g at h
  split at h <;> (repeat' split at h) <;>
    simp only [Except.ok.injEq, Prod.mk.injEq, reduceCtorEq, Except.map] at h <;>
    obtain ⟨-, rfl⟩ := h <;> simp [get?_set_ne _ _ ha, get?_erase_ne _ ha]

/-- A request's outcome and what its address holds afterwards depend only on what the address
held before. -/
theorem apply_congr (s t : Store) (r : Request) (h : s.get? r.address = t.get? r.address) :
    (s.apply r).map (fun p => (p.1, p.2.get? r.address)) =
      (t.apply r).map (fun p => (p.1, p.2.get? r.address)) := by
  simp only [apply]
  rw [h]
  split <;> (repeat' split) <;> simp_all [Except.map]

theorem get?_execute_ne (s : Store) (r : Request) {a : Address} (ha : a ≠ r.address) :
    (s.execute r).2.get? a = s.get? a := by
  simp only [execute]
  split
  · rename_i resp s' h
    exact get?_apply_ne h ha
  · rfl

theorem execute_congr {s t : Store} (r : Request) (h : s.get? r.address = t.get? r.address) :
    (s.execute r).1 = (t.execute r).1 ∧
      (s.execute r).2.get? r.address = (t.execute r).2.get? r.address := by
  -- counting the request changes no contents
  have hc := apply_congr { s with executed := s.executed + 1 }
    { t with executed := t.executed + 1 } r h
  simp only [execute]
  rcases hs : ({ s with executed := s.executed + 1 } : Store).apply r with
      e | ⟨resp, s'⟩ <;>
    rcases ht : ({ t with executed := t.executed + 1 } : Store).apply r with
      e' | ⟨resp', t'⟩ <;>
    simp only [hs, ht, Except.map, Except.error.injEq, Except.ok.injEq, Prod.mk.injEq,
      reduceCtorEq] at hc ⊢
  · exact ⟨hc, h⟩
  · exact hc

/-! ## Runs of requests -/

theorem executeBatch_append (s : Store) (l₁ l₂ : List Request) :
    s.executeBatch (l₁ ++ l₂) =
      ((s.executeBatch l₁).1 ++ ((s.executeBatch l₁).2.executeBatch l₂).1,
        ((s.executeBatch l₁).2.executeBatch l₂).2) := by
  induction l₁ generalizing s with
  | nil => rfl
  | cons r rest ih => simp [executeBatch, ih]

/-- An address ends a run with what the run's requests at that address leave there, run alone
from the same contents. -/
theorem get?_executeBatch_filter {s t : Store} {a : Address} (h : s.get? a = t.get? a)
    (l : List Request) :
    (s.executeBatch l).2.get? a = (t.executeBatch (l.filter (·.address = a))).2.get? a := by
  induction l generalizing s t with
  | nil => exact h
  | cons r rest ih =>
    by_cases hr : r.address = a
    · -- the request works at the address: both runs take it, from the same contents
      subst hr
      rw [List.filter_cons_of_pos (by simp)]
      exact ih (execute_congr r h).2
    · -- the request works elsewhere: the address keeps its contents
      rw [List.filter_cons_of_neg (by simpa using hr)]
      exact ih ((get?_execute_ne s r (Ne.symm hr)).trans h)

/-- A request answers what it answers after the requests before it at its address alone. -/
theorem execute_after_filter (s : Store) (pre : List Request) (x : Request) :
    ((s.executeBatch pre).2.execute x).1 =
      ((s.executeBatch (pre.filter (·.address = x.address))).2.execute x).1 :=
  (execute_congr x (get?_executeBatch_filter rfl pre)).1

end OrderedState.Store
