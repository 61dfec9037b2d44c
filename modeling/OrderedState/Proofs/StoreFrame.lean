import Mathlib.Data.Set.Card
import OrderedState.Proofs.StoreHistory

/-!
# What a request leaves alone in the store

The store changes its entries only through a request that succeeds and writes:

* a request the store refuses, for a payload of a shape its type does not take or for contents
  of another kind, is counted and changes nothing else, since `apply` refuses before it builds
  a store (`execute_error_entries`);
* a read (`ValueGet`, `ListGet`, `MapGet`, `MapContains`, `MapIter`, `MapIsEmpty`) gives back
  the store it was given, whatever it answers (`execute_read_entries`);
* any other success leaves the store as it was, sets the request's address, or empties it
  (`apply_cases`).

Setting and emptying an address keep one entry per address, and `Store.Proper` keeps every
container non-empty, so along every run from the empty store the store stays `Tidy`. In a tidy
store no entry is an empty list or an empty map, and the number of entries is the number of
addresses that hold something (`Tidy.entryCount_eq`).
-/

namespace OrderedState.Store

variable {s s' : Store} {r : Request}

/-! ## Refusals and reads -/

/-- A refused request is counted and leaves the entries as they were. -/
theorem execute_error_entries {e : StateError} (h : (s.execute r).1 = .error e) :
    (s.execute r).2.entries = s.entries := by
  rcases happ : ({ s with executed := s.executed + 1 } : Store).apply r with e' | ⟨resp, s'⟩
  · simp [execute, happ]
  · simp [execute, happ] at h

/-- A read answers from the store it is given and gives it back unchanged. -/
theorem apply_read (hro : r.requestType.isReadOnly = true) {resp : Response}
    (h : s.apply r = .ok (resp, s')) : s' = s := by
  unfold apply at h
  cases hrt : r.requestType <;> simp only [hrt, RequestType.isReadOnly, reduceCtorEq] at hro h
  -- each read answers from what its address holds and returns `s` itself
  all_goals
    repeat' split at h
    all_goals simp_all [Except.map]

/-- A read leaves the entries as they were, whatever it answers. -/
theorem execute_read_entries (hro : r.requestType.isReadOnly = true) :
    (s.execute r).2.entries = s.entries := by
  rcases happ : ({ s with executed := s.executed + 1 } : Store).apply r with e | ⟨resp, s'⟩
  · simp [execute, happ]
  · simp [execute, happ, apply_read hro happ]

/-! ## One entry per address -/

/-- A request that succeeds leaves the store as it was, sets its address, or empties it. -/
theorem apply_cases {resp : Response} (h : s.apply r = .ok (resp, s')) :
    s' = s ∨ (∃ c, s' = s.set r.address c) ∨ s' = s.erase r.address := by
  simp only [apply] at h
  generalize s.get? r.address = g at h
  split at h <;> (repeat' split at h) <;>
    simp only [Except.ok.injEq, Prod.mk.injEq, reduceCtorEq, Except.map] at h <;>
    obtain ⟨-, rfl⟩ := h <;> simp

theorem nodup_set (hs : (s.entries.map Prod.fst).Nodup) (a : Address) (c : Contents) :
    ((s.set a c).entries.map Prod.fst).Nodup := by
  simp only [set, List.map_cons, List.nodup_cons]
  refine ⟨by simp, ?_⟩
  exact hs.sublist (List.filter_sublist.map _)

theorem nodup_erase (hs : (s.entries.map Prod.fst).Nodup) (a : Address) :
    ((s.erase a).entries.map Prod.fst).Nodup :=
  hs.sublist (List.filter_sublist.map _)

/-- An address holds something exactly when it has an entry. -/
theorem lookup_isSome {l : List (Address × Contents)} {a : Address} :
    (l.lookup a).isSome ↔ a ∈ l.map Prod.fst := by
  induction l with
  | nil => simp
  | cons e rest ih =>
    obtain ⟨b, c⟩ := e
    by_cases hb : a = b
    · subst hb
      simp
    · simp [List.lookup_cons, beq_false_of_ne hb, ih, hb]

/-- With one entry per address, every entry is what its address holds. -/
theorem lookup_of_mem {l : List (Address × Contents)} (hl : (l.map Prod.fst).Nodup)
    {e : Address × Contents} (he : e ∈ l) : l.lookup e.1 = some e.2 := by
  induction l with
  | nil => cases he
  | cons x rest ih =>
    obtain ⟨b, c⟩ := x
    rw [List.map_cons, List.nodup_cons] at hl
    rcases List.mem_cons.mp he with rfl | he'
    · simp
    · -- an entry further on has another address than the first
      have hne : e.1 ≠ b := fun h => hl.1 (List.mem_map.mpr ⟨e, he', h⟩)
      rw [List.lookup_cons, beq_false_of_ne hne]
      exact ih hl.2 he'

/-! ## Tidy stores -/

/-- What the store keeps along every run: one entry per address, and at every address proper
contents (a value, a non-empty list or a non-empty map with its keys in order). -/
structure Tidy (s : Store) : Prop where
  nodup : (s.entries.map Prod.fst).Nodup
  proper : s.Proper

theorem tidy_empty : ({} : Store).Tidy :=
  ⟨List.nodup_nil, fun _ _ h => by simp [get?] at h⟩

/-- Every request keeps the store tidy. -/
theorem tidy_execute (hs : s.Tidy) (r : Request) : (s.execute r).2.Tidy := by
  refine ⟨?_, (execute_steps (r := r) hs.proper).2.1⟩
  rcases happ : ({ s with executed := s.executed + 1 } : Store).apply r with e | ⟨resp, s'⟩
  · have hex : s.execute r = (.error e, { s with executed := s.executed + 1 }) := by
      simp [execute, happ]
    rw [hex]
    exact hs.nodup
  · have hex : s.execute r = (.ok resp, s') := by simp [execute, happ]
    rw [hex]
    -- counting the request keeps the entries, so `apply_cases` speaks of `s`'s entries
    rcases apply_cases happ with rfl | ⟨c, rfl⟩ | rfl
    · exact hs.nodup
    · exact nodup_set hs.nodup _ c
    · exact nodup_erase hs.nodup _

theorem tidy_executeBatch (hs : s.Tidy) (rs : List Request) :
    (s.executeBatch rs).2.Tidy := by
  induction rs generalizing s with
  | nil => exact hs
  | cons r rest ih => exact ih (tidy_execute hs r)

/-- In a tidy store every entry holds proper contents, never an empty list or map. -/
theorem Tidy.entry_proper (hs : s.Tidy) {e : Address × Contents} (he : e ∈ s.entries) :
    e.2.Proper :=
  hs.proper e.1 e.2 (lookup_of_mem hs.nodup he)

/-- In a tidy store the entries count the addresses that hold something. -/
theorem Tidy.entryCount_eq (hs : s.Tidy) :
    s.entryCount = Set.ncard {a | ∃ c, s.get? a = some c} := by
  have hset : {a | ∃ c, s.get? a = some c} = ↑(s.entries.map Prod.fst).toFinset := by
    ext a
    simp only [Set.mem_ofPred_eq, Finset.mem_coe, List.mem_toFinset, ← lookup_isSome,
      Option.isSome_iff_exists, get?]
  rw [hset, Set.ncard_coe_finset, List.toFinset_card_of_nodup hs.nodup, List.length_map,
    entryCount]

end OrderedState.Store

namespace OrderedState

open Store

/-- The store's refusals and reads leave its entries alone, and it never holds an empty
container. A request refused with a store error, whatever its type and payload, leaves the
entries exactly as they were; a read leaves them exactly as they were whatever it answers; and
after every run of requests from the empty store (a run of single requests and batches is one
batch of all their requests) every entry holds a value, a non-empty list or a non-empty map, and
the number of entries is the number of addresses holding something. -/
theorem store_refusals_and_reads_keep_entries :
    (∀ (s : Store) (r : Request) (e : StateError), (s.execute r).1 = .error e →
      (s.execute r).2.entries = s.entries) ∧
    (∀ (s : Store) (r : Request), r.requestType.isReadOnly = true →
      (s.execute r).2.entries = s.entries) ∧
    (∀ rs : List Request,
      (∀ e ∈ (Store.executeBatch {} rs).2.entries, e.2.Proper) ∧
      (Store.executeBatch {} rs).2.entryCount =
        Set.ncard {a | ∃ c, (Store.executeBatch {} rs).2.get? a = some c}) := by
  refine ⟨fun s r e h => execute_error_entries h, fun s r hro => execute_read_entries hro,
    fun rs => ?_⟩
  have hs := tidy_executeBatch tidy_empty rs
  exact ⟨fun e he => hs.entry_proper he, hs.entryCount_eq⟩

end OrderedState
