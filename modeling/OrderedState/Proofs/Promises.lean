import Mathlib.Data.List.Perm.Subperm
import OrderedState.Proofs.BackPressure

/-!
# No future is resolved twice

The library stops the processing thread when a future that is done already is resolved again
(`World.resolvedTwice`). It never comes to that, because every party that may resolve a future
holds a pending future no other party holds. The parties are

* the promises the thread holds;
* the continuations that settle a future of their own (`Cont.target`), whether waiting on a
  future or taken from a settled one onto the thread's stack;
* the requests in flight, through their tickets;
* the combinations still missing results.

`World.resolvers` lists their futures, one entry per party. `World.Unshared` says the list has
no repeats and holds only pending futures (`World.Held`), that a combination has no more
continuations out than results missing, and that the controller's ids in flight are distinct
and below the next id. Settling a future takes its party out of the list first (`World.Free`),
and new parties only hold new futures, so every step of the thread keeps the invariant
(`Unshared.callInvariant`).
-/

namespace OrderedState

/-- The continuations waiting on a future. -/
def Slot.waiting : Slot → List Cont
  | .pending ks => ks
  | .done _ => []

/-- The combination a continuation reports to. -/
def Cont.group : Cont → Option Nat
  | .gather g _ => some g
  | _ => none

/-- The future a combination will settle, while it still misses results. -/
def Gather.holds (gr : Gather) : List Nat := if gr.remaining = 0 then [] else [gr.target]

@[simp] theorem Derive.target_cont (d : Derive) (t : Nat) : (d.cont t).target = some t := by
  cases d <;> rfl

@[simp] theorem Derive.group_cont (d : Derive) (t : Nat) : (d.cont t).group = none := by
  cases d <;> rfl

/-- Replacing an element of a list replaces what it contributes to a `flatMap`. -/
theorem perm_flatMap_set {α β : Type} {f : α → List β} :
    ∀ {l : List α} {i : Nat} {a : α} (b : α), l[i]? = some a →
      ((l.set i b).flatMap f ++ f a).Perm (l.flatMap f ++ f b)
  | [], _, _, _, h => by simp at h
  | x :: xs, 0, a, b, h => by
    obtain rfl : x = a := by simpa using h
    simp only [List.set_cons_zero, List.flatMap_cons, List.append_assoc]
    calc List.Perm (f b ++ (xs.flatMap f ++ f x)) ((xs.flatMap f ++ f x) ++ f b) :=
          List.perm_append_comm
      _ = (xs.flatMap f ++ f x) ++ f b := rfl
      List.Perm _ ((f x ++ xs.flatMap f) ++ f b) := List.perm_append_comm.append_right _
      _ = f x ++ (xs.flatMap f ++ f b) := List.append_assoc _ _ _
  | x :: xs, i + 1, a, b, h => by
    simp only [List.getElem?_cons_succ] at h
    simp only [List.set_cons_succ, List.flatMap_cons, List.append_assoc]
    exact (perm_flatMap_set b h).append_left (f x)

theorem nodup_of_subperm {α : Type} {l l' : List α} (hs : List.Subperm l' l) (h : l.Nodup) :
    l'.Nodup := by
  obtain ⟨m, hm, hsub⟩ := hs
  exact hm.nodup_iff.mp (h.sublist hsub)

theorem subperm_filterMap {α β : Type} (f : α → Option β) {l l' : List α}
    (h : List.Subperm l' l) : List.Subperm (l'.filterMap f) (l.filterMap f) := by
  obtain ⟨m, hm, hsub⟩ := h
  exact ⟨m.filterMap f, hm.filterMap f, hsub.filterMap f⟩

namespace World

variable {w w' : World} {ps ps' : List Nat} {D D' : List Cont} {t : Nat}

/-- Every continuation waiting on a future, future by future. -/
def waiting (w : World) : List Cont := w.slots.toList.flatMap Slot.waiting

/-- The futures the controller resolves when its requests in flight complete. -/
def tickets (w : World) : List Nat :=
  match w.handler with
  | .controller c => c.inFlight.map (·.2.promise.future)
  | _ => []

/-- The futures of the combinations still missing results. -/
def combining (w : World) : List Nat := w.gathers.toList.flatMap Gather.holds

/-- The results combination `g` still misses; none for a combination that does not exist. -/
def missing (w : World) (g : Nat) : Nat := (w.gathers[g]?.map Gather.remaining).getD 0

/-- The futures that may be resolved, one entry per party that may resolve one: the promises
`ps` the thread holds, the continuations on its stack `D` and waiting on futures, the requests
in flight and the combinations missing results. -/
def resolvers (ps : List Nat) (D : List Cont) (w : World) : List Nat :=
  ps ++ (D ++ w.waiting).filterMap Cont.target ++ w.tickets ++ w.combining

/-- Slot `t` holds a pending future. -/
def Pending (w : World) (t : Nat) : Prop := ∃ ks, w.slot? t = some (.pending ks)

/-- Futures none of which appears twice, all pending. -/
structure Held (l : List Nat) (w : World) : Prop where
  nodup : l.Nodup
  pending : ∀ t ∈ l, w.Pending t

/-- What keeps every future single-assignment, with the promises `ps` held and the
continuations `D` on the thread's stack. -/
structure Unshared (ps : List Nat) (D : List Cont) (w : World) : Prop where
  held : Held (w.resolvers ps D) w
  /-- A combination has no more continuations out than results missing. -/
  shares : ∀ g, ((D ++ w.waiting).filterMap Cont.group).count g ≤ w.missing g
  ids : ∀ c, w.handler = .controller c →
    c.inFlight.keys.Nodup ∧ ∀ id ∈ c.inFlight.keys, id < c.nextId
  clean : w.resolvedTwice = false

/-- Future `t` may be settled: it is pending, and no party holds it. -/
def Free (ps : List Nat) (D : List Cont) (w : World) (t : Nat) : Prop :=
  w.Pending t ∧ t ∉ w.resolvers ps D

/-! ## Slots -/

theorem Pending.lt_size (h : w.Pending t) : t < w.slots.size := by
  obtain ⟨ks, hks⟩ := h
  exact (Array.getElem?_eq_some_iff.mp hks).1

theorem slot?_setSlot_ne {i : Nat} (s : Slot) (h : i ≠ t) : (w.setSlot i s).slot? t = w.slot? t := by
  simp [slot?, setSlot, h]

theorem slot?_setSlot_self {i : Nat} {s : Slot} (h : w.slot? i = some s) (s' : Slot) :
    (w.setSlot i s').slot? i = some s' := by
  have hi : i < w.slots.size := (Array.getElem?_eq_some_iff.mp h).1
  simp [slot?, setSlot, hi]

theorem slot?_push (h : w'.slots = w.slots.push s) (ht : t < w.slots.size) :
    w'.slot? t = w.slot? t := by
  simp [slot?, h, Array.getElem?_push, Nat.ne_of_lt ht]

theorem slot?_push_self (h : w'.slots = w.slots.push s) : w'.slot? w.slots.size = some s := by
  simp [slot?, h]

theorem waiting_setSlot {i : Nat} {s : Slot} (h : w.slot? i = some s) (s' : Slot) :
    ((w.setSlot i s').waiting ++ s.waiting).Perm (w.waiting ++ s'.waiting) := by
  unfold waiting setSlot
  rw [Array.toList_setIfInBounds]
  exact perm_flatMap_set s' (by rw [Array.getElem?_toList]; exact h)

theorem waiting_push (h : w'.slots = w.slots.push s) : w'.waiting = w.waiting ++ s.waiting := by
  simp [waiting, h, Array.toList_push]

/-! ## Held futures -/

theorem Held.perm {l l' : List Nat} (h : Held l w) (hp : l'.Perm l) : Held l' w :=
  ⟨hp.nodup_iff.mpr h.nodup, fun t ht => h.pending t (hp.mem_iff.mp ht)⟩

theorem Held.subperm {l l' : List Nat} (h : Held l w) (hs : List.Subperm l' l) : Held l' w :=
  ⟨nodup_of_subperm hs h.nodup, fun t ht => h.pending t (hs.subset ht)⟩

/-- Held futures stay held while each stays pending. -/
theorem Held.keep {l : List Nat} (h : Held l w) (hs : ∀ t ∈ l, w.Pending t → w'.Pending t) :
    Held l w' :=
  ⟨h.nodup, fun t ht => hs t ht (h.pending t ht)⟩

/-- A future taken out of a list of held futures is pending and held by no one else. -/
theorem Held.free {l l' : List Nat} (h : Held l w) (hs : List.Subperm (t :: l') l) :
    w.Pending t ∧ t ∉ l' :=
  ⟨h.pending t (hs.subset List.mem_cons_self),
    (List.nodup_cons.mp (nodup_of_subperm hs h.nodup)).1⟩

/-- A new pending future is held by no one yet. -/
theorem Held.fresh {l : List Nat} {ks : List Cont} (h : Held l w)
    (hs : w'.slots = w.slots.push (.pending ks)) : Held (l ++ [w.slots.size]) w' := by
  refine ⟨List.nodup_append.mpr ⟨h.nodup, by simp, ?_⟩, ?_⟩
  · intro t ht b hb hbt
    have hlt := (h.pending t ht).lt_size
    rw [List.mem_singleton] at hb
    omega
  · intro t ht
    rcases List.mem_append.mp ht with ht | ht
    · obtain ⟨ks', hks'⟩ := h.pending t ht
      exact ⟨ks', (slot?_push hs (h.pending t ht).lt_size).trans hks'⟩
    · obtain rfl := List.mem_singleton.mp ht
      exact ⟨ks, slot?_push_self hs⟩

/-! ## The parties -/

theorem tickets_of_controller {c : Controller Ticket} (h : w.handler = .controller c) :
    w.tickets = c.inFlight.map (·.2.promise.future) := by
  simp [tickets, h]

theorem tickets_of_direct {d : Direct} (h : w.handler = .direct d) : w.tickets = [] := by
  simp [tickets, h]

/-- The resolvers of a world with other tickets only. -/
theorem resolvers_of_tickets (ht : w'.tickets = w.tickets) (hs : w'.slots = w.slots)
    (hg : w'.gathers = w.gathers) : w'.resolvers ps D = w.resolvers ps D := by
  simp only [resolvers, waiting, combining, ht, hs, hg]

/-- The resolvers of a world whose tickets are those of another but for `extra`. -/
theorem resolvers_of_tickets_perm {extra : List Nat} (ht : (extra ++ w'.tickets).Perm w.tickets)
    (hs : w'.slots = w.slots) (hg : w'.gathers = w.gathers) :
    (extra ++ w'.resolvers ps D).Perm (w.resolvers ps D) := by
  simp only [resolvers, waiting, combining, hs, hg]
  rw [List.perm_iff_count]
  intro x
  have hx := ht.count_eq x
  simp only [List.count_append] at hx ⊢
  omega

theorem resolvers_cons (k : Cont) :
    (w.resolvers ps (k :: D)).Perm (k.target.toList ++ w.resolvers ps D) := by
  unfold resolvers
  cases hk : k.target with
  | none => simp [hk]
  | some t =>
    simp only [List.cons_append, List.filterMap_cons, hk, Option.toList_some, List.append_assoc]
    exact List.perm_middle

/-- The resolvers, for stacks and waiting continuations that are some of those before. -/
theorem resolvers_subperm (hD : List.Subperm (D' ++ w'.waiting) (D ++ w.waiting))
    (ht : w'.tickets = w.tickets) (hc : w'.combining.Perm w.combining) :
    List.Subperm (w'.resolvers ps D') (w.resolvers ps D) := by
  unfold resolvers
  rw [ht]
  exact (((List.Subperm.refl ps).append (subperm_filterMap _ hD)).append
    (List.Subperm.refl _)).append hc.subperm

/-- The resolvers, for stacks and waiting continuations that are the same up to order. -/
theorem resolvers_perm (hD : (D' ++ w'.waiting).Perm (D ++ w.waiting))
    (ht : w'.tickets = w.tickets) (hc : w'.combining = w.combining) :
    (w'.resolvers ps D').Perm (w.resolvers ps D) := by
  unfold resolvers
  rw [ht, hc]
  exact (((hD.filterMap _).append_left ps).append_right _).append_right _

/-- A world that differs only in what no party looks at. -/
theorem Unshared.of_frame (h : Unshared ps D w) (hs : w'.slots = w.slots)
    (hg : w'.gathers = w.gathers) (hh : w'.handler = w.handler)
    (hr : w'.resolvedTwice = w.resolvedTwice) : Unshared ps D w' := by
  have hw : w'.waiting = w.waiting := by simp [waiting, hs]
  have hres : w'.resolvers ps D = w.resolvers ps D := by
    simp [resolvers, tickets, combining, hw, hg, hh]
  refine ⟨⟨?_, fun t ht => ?_⟩, fun g => ?_, fun c hc => h.ids c (hh ▸ hc), hr.trans h.clean⟩
  · rw [hres]; exact h.held.nodup
  · obtain ⟨ks, hks⟩ := h.held.pending t (hres ▸ ht)
    exact ⟨ks, by simp only [slot?, hs] at hks ⊢; exact hks⟩
  · simpa [hw, missing, hg] using h.shares g

/-! ## What the interpreter's steps keep -/

/-- Settling a free future moves its continuations onto the stack. -/
theorem Unshared.settle (h : Unshared ps D w) {i : Nat} {ks : List Cont}
    (hfree : w.Free ps D i) (hks : w.slot? i = some (.pending ks)) (r : Outcome) :
    Unshared ps (ks ++ D) (w.setSlot i (.done r)) := by
  have hw : ((w.setSlot i (.done r)).waiting ++ ks).Perm w.waiting := by
    simpa [Slot.waiting] using waiting_setSlot hks (.done r)
  have hD : (ks ++ D ++ (w.setSlot i (.done r)).waiting).Perm (D ++ w.waiting) :=
    calc List.Perm (ks ++ D ++ (w.setSlot i (.done r)).waiting)
          ((D ++ (w.setSlot i (.done r)).waiting) ++ ks) := by
          rw [List.append_assoc]; exact List.perm_append_comm
      _ = D ++ ((w.setSlot i (.done r)).waiting ++ ks) := List.append_assoc _ _ _
      List.Perm _ (D ++ w.waiting) := hw.append_left D
  have hres : ((w.setSlot i (.done r)).resolvers ps (ks ++ D)).Perm (w.resolvers ps D) :=
    resolvers_perm hD rfl rfl
  refine ⟨(h.held.perm hres).keep fun t ht hp => ?_, fun g => ?_, h.ids, h.clean⟩
  · -- every future held elsewhere keeps its slot
    have hne : i ≠ t := fun hit => hfree.2 (hit ▸ hres.mem_iff.mp ht)
    obtain ⟨ks', hks'⟩ := hp
    exact ⟨ks', (slot?_setSlot_ne _ hne).trans hks'⟩
  · rw [(hD.filterMap _).count_eq g]
    exact h.shares g

/-- Registering on a pending future moves the continuation from the stack to the future. -/
theorem Unshared.append (h : Unshared ps (k :: D) w) {i : Nat} {ks : List Cont}
    (hks : w.slot? i = some (.pending ks)) :
    Unshared ps D (w.setSlot i (.pending (ks ++ [k]))) := by
  have h1 := (waiting_setSlot hks (.pending (ks ++ [k]))).trans
    (List.perm_append_comm.append_left w.waiting)
  have h2 : ((w.setSlot i (.pending (ks ++ [k]))).waiting).Perm (w.waiting ++ [k]) :=
    (List.perm_append_right_iff ks).mp (by simpa only [List.append_assoc, Slot.waiting] using h1)
  have hD : (D ++ (w.setSlot i (.pending (ks ++ [k]))).waiting).Perm (k :: D ++ w.waiting) :=
    calc List.Perm (D ++ (w.setSlot i (.pending (ks ++ [k]))).waiting)
          (D ++ (w.waiting ++ [k])) := h2.append_left D
      _ = (D ++ w.waiting) ++ [k] := (List.append_assoc _ _ _).symm
      List.Perm _ (k :: (D ++ w.waiting)) := List.perm_append_singleton _ _
  refine ⟨(h.held.perm (resolvers_perm hD rfl rfl)).keep fun t _ hp => ?_, fun g => ?_,
    h.ids, h.clean⟩
  · by_cases hit : i = t
    · subst hit
      exact ⟨_, slot?_setSlot_self hks _⟩
    · obtain ⟨ks', hks'⟩ := hp
      exact ⟨ks', (slot?_setSlot_ne _ hit).trans hks'⟩
  · rw [(hD.filterMap _).count_eq g]
    exact h.shares g

/-- A continuation may leave the stack unrun. -/
theorem Unshared.drop (h : Unshared ps (k :: D) w) : Unshared ps D w := by
  have hD : List.Subperm (D ++ w.waiting) (k :: D ++ w.waiting) :=
    (List.sublist_cons_self _ _).subperm
  refine ⟨h.held.subperm (resolvers_subperm hD rfl (List.Perm.refl _)), fun g => ?_, h.ids,
    h.clean⟩
  exact Nat.le_trans ((subperm_filterMap _ hD).count_le g) (h.shares g)

/-- A continuation that settles a future is the only party holding it. -/
theorem Unshared.free_target (h : Unshared ps (k :: D) w) (hk : k.target = some t) :
    w.Free ps D t := by
  have hp : (w.resolvers ps (k :: D)).Perm (k.target.toList ++ w.resolvers ps D) :=
    resolvers_cons k
  simp only [hk, Option.toList_some, List.singleton_append] at hp
  exact h.held.free hp.symm.subperm

/-- A continuation may become another that settles the same future. -/
theorem Unshared.swap_head (h : Unshared ps (k :: D) w) {k' : Cont}
    (ht : k'.target = k.target) (hg : k'.group = k.group) : Unshared ps (k' :: D) w := by
  have hres : w.resolvers ps (k' :: D) = w.resolvers ps (k :: D) := by
    simp only [resolvers, List.cons_append, List.filterMap_cons, ht]
  have hsh : (k' :: D ++ w.waiting).filterMap Cont.group =
      (k :: D ++ w.waiting).filterMap Cont.group := by
    simp only [List.cons_append, List.filterMap_cons, hg]
  refine ⟨by rw [hres]; exact h.held, fun g => ?_, h.ids, h.clean⟩
  rw [hsh]
  exact h.shares g

theorem missing_setGather {g : Nat} {gr : Gather} (hg : w.gathers[g]? = some gr) (gr' : Gather)
    (g' : Nat) :
    ({ w with gathers := w.gathers.setIfInBounds g gr' } : World).missing g' =
      if g = g' then gr'.remaining else w.missing g' := by
  have hlt : g < w.gathers.size := (Array.getElem?_eq_some_iff.mp hg).1
  by_cases hgg : g = g'
  · subst hgg
    simp [missing, hlt]
  · simp [missing, hgg]

theorem combining_setGather {g : Nat} {gr : Gather} (hg : w.gathers[g]? = some gr)
    (gr' : Gather) :
    (({ w with gathers := w.gathers.setIfInBounds g gr' } : World).combining ++ gr.holds).Perm
      (w.combining ++ gr'.holds) := by
  unfold combining
  simp only [Array.toList_setIfInBounds]
  exact perm_flatMap_set gr' (by rw [Array.getElem?_toList]; exact hg)

/-- The resolvers of two worlds that differ in their combinations only. -/
theorem resolvers_of_combining {extra extra' : List Nat}
    (hc : (w'.combining ++ extra).Perm (w.combining ++ extra')) (hw : w'.waiting = w.waiting)
    (ht : w'.tickets = w.tickets) :
    (w'.resolvers ps D ++ extra).Perm (w.resolvers ps D ++ extra') := by
  unfold resolvers
  rw [hw, ht]
  simpa only [List.append_assoc] using hc.append_left (ps ++ (D ++ w.waiting).filterMap
    Cont.target ++ w.tickets)

/-- A combination's continuation records its result, one fewer missing; the last one lets go
of the combination's future, which no one else holds. -/
theorem Unshared.setGather {g j : Nat} {gr : Gather} (h : Unshared ps (.gather g j :: D) w)
    (hgr : w.gathers[g]? = some gr) (gr' : Gather) (hrem : gr'.remaining = gr.remaining - 1)
    (htarget : gr'.target = gr.target) :
    Unshared ps D { w with gathers := w.gathers.setIfInBounds g gr' } ∧
      (gr'.remaining = 0 →
        ({ w with gathers := w.gathers.setIfInBounds g gr' } : World).Free ps D gr.target) := by
  -- the continuation on the stack is one of the results still missing
  have hshare := h.shares g
  simp only [List.cons_append, List.filterMap_cons, Cont.group, List.count_cons_self,
    missing, hgr, Option.map_some, Option.getD_some] at hshare
  have hholds : gr.holds = [gr.target] := by simp [Gather.holds]; omega
  have hres : w.resolvers ps (.gather g j :: D) = w.resolvers ps D := rfl
  have hc := combining_setGather hgr gr'
  rw [hholds] at hc
  have hshares : ∀ g', ((D ++ w.waiting).filterMap Cont.group).count g' ≤
      ({ w with gathers := w.gathers.setIfInBounds g gr' } : World).missing g' := by
    intro g'
    rw [missing_setGather hgr, hrem]
    have hs := h.shares g'
    simp only [List.cons_append, List.filterMap_cons, Cont.group, List.count_cons] at hs
    split
    · next hgg => subst hgg; omega
    · next hgg => simp only [beq_iff_eq] at hs; omega
  by_cases hlast : gr'.remaining = 0
  · simp only [Gather.holds, hlast, if_true] at hc
    have hperm : (({ w with gathers := w.gathers.setIfInBounds g gr' } : World).resolvers ps D
        ++ _).Perm (w.resolvers ps D ++ _) := resolvers_of_combining hc rfl rfl
    have hsub : List.Subperm (gr.target ::
        ({ w with gathers := w.gathers.setIfInBounds g gr' } : World).resolvers ps D)
        (w.resolvers ps (.gather g j :: D)) := by
      rw [hres]
      exact ((List.perm_append_singleton _ _).symm.trans (by simpa using hperm)).subperm
    have hheld := h.held.subperm hsub
    refine ⟨⟨(hheld.subperm (List.sublist_cons_self _ _).subperm).keep fun _ _ hp => hp,
      hshares, h.ids, h.clean⟩, fun _ => ?_⟩
    exact h.held.free hsub
  · simp only [Gather.holds, hlast, if_false, htarget] at hc
    have hperm : (({ w with gathers := w.gathers.setIfInBounds g gr' } : World).resolvers ps D
        ++ _).Perm (w.resolvers ps D ++ _) := resolvers_of_combining hc rfl rfl
    have hp : (({ w with gathers := w.gathers.setIfInBounds g gr' } : World).resolvers ps D).Perm
        (w.resolvers ps (.gather g j :: D)) := by
      rw [hres]
      exact (List.perm_append_right_iff _).mp hperm
    exact ⟨⟨(h.held.perm hp).keep fun _ _ hp => hp, hshares, h.ids, h.clean⟩,
      fun h0 => absurd h0 hlast⟩

/-- A combination's continuation records its result; the last one missing frees the
combination's future for it to settle. -/
theorem Unshared.gather {g j : Nat} (h : Unshared ps (.gather g j :: D) w) (r : Outcome) :
    Unshared ps D (w.gatherResult g j r).2 ∧
      ∀ t out, (w.gatherResult g j r).1 = some (t, out) →
        (w.gatherResult g j r).2.Free ps D t := by
  unfold gatherResult
  split
  · exact ⟨h.drop, fun _ _ hnone => by cases hnone⟩
  · next gr hgr =>
    obtain ⟨h', hfree⟩ := h.setGather hgr
      { gr with results := gr.results.set j (some r), remaining := gr.remaining - 1 } rfl rfl
    dsimp only
    split
    · next hlast =>
      refine ⟨h', ?_⟩
      rintro t out ⟨⟩
      exact hfree hlast
    · exact ⟨h', fun _ _ hnone => by cases hnone⟩

/-- A change of the controller that leaves the requests in flight and the next id alone. -/
theorem Unshared.onController (h : Unshared ps D w) {f : Controller Ticket → Controller Ticket}
    (hf : Controller.Steady f) : Unshared ps D (w.onController f) := by
  unfold World.onController
  split
  · next c hc =>
    obtain ⟨hi, hn, -⟩ := hf c
    have hres : ({ w with handler := .controller (f c) } : World).resolvers ps D =
        w.resolvers ps D :=
      resolvers_of_tickets (by rw [tickets_of_controller hc, tickets_of_controller rfl, hi]) rfl
        rfl
    refine ⟨?_, h.shares, fun c' hc' => ?_, h.clean⟩
    · rw [hres]
      exact h.held.keep fun _ _ hp => hp
    · cases hc'
      rw [hi, hn]
      exact h.ids c hc
  · exact h

/-- The direct handler holds no request in flight. -/
theorem Unshared.direct (h : Unshared ps D w) {d : Direct} (hd : w.handler = .direct d)
    (d' : Direct) : Unshared ps D { w with handler := .direct d' } := by
  have hres : ({ w with handler := .direct d' } : World).resolvers ps D = w.resolvers ps D :=
    resolvers_of_tickets (by rw [tickets_of_direct hd, tickets_of_direct rfl]) rfl rfl
  refine ⟨?_, h.shares, fun _ hc => (by cases hc), h.clean⟩
  rw [hres]
  exact h.held.keep fun _ _ hp => hp

/-- A new future that is done already is held by no one. -/
theorem Unshared.push_done (h : Unshared ps D w) {r : Outcome}
    (hs : w'.slots = w.slots.push (.done r)) (hg : w'.gathers = w.gathers)
    (hh : w'.handler = w.handler) (hr : w'.resolvedTwice = w.resolvedTwice) :
    Unshared ps D w' := by
  have hw : w'.waiting = w.waiting := by simp [waiting_push hs, Slot.waiting]
  have hres : w'.resolvers ps D = w.resolvers ps D := by
    simp [resolvers, tickets, combining, hw, hg, hh]
  refine ⟨?_, fun g => ?_, fun c hc => h.ids c (hh ▸ hc), hr.trans h.clean⟩
  · rw [hres]
    refine h.held.keep fun t _ hp => ?_
    obtain ⟨ks, hks⟩ := hp
    exact ⟨ks, (slot?_push hs (Pending.lt_size ⟨ks, hks⟩)).trans hks⟩
  · simpa [hw, missing, hg] using h.shares g

/-- A request submitted to the controller holds the new future made for it. -/
theorem Unshared.submitTo (h : Unshared ps D w) {c : Controller Ticket}
    (hc : w.handler = .controller c) (h' : Handle) (ns : Bytes) (op : Operation) :
    Unshared ps D (w.submitTo c h' ns op).2 := by
  unfold World.submitTo
  dsimp only
  split
  · exact h
  · next c' hs =>
    obtain ⟨hkeys, hbelow⟩ := h.ids c hc
    obtain ⟨-, record, key, hf⟩ := Controller.submit_adds (Controller.nextId_free hbelow) hs
    show Unshared ps D ({ w with handler := .controller c' }.newSlot (.pending [])).2
    have hslots : ({ w with handler := .controller c' }.newSlot (.pending [])).2.slots =
        w.slots.push (.pending []) := rfl
    have hw : ({ w with handler := .controller c' }.newSlot (.pending [])).2.waiting =
        w.waiting := by simp [waiting_push hslots, Slot.waiting]
    -- the new ticket holds the new future
    have hres : (({ w with handler := .controller c' }.newSlot (.pending [])).2.resolvers ps
        D).Perm (w.resolvers ps D ++ [w.slots.size]) := by
      unfold resolvers
      rw [hw, tickets_of_controller hc]
      simp only [tickets, newSlot, hf, List.map_append, List.map_cons, List.map_nil,
        List.append_assoc]
      exact List.Perm.append_left _ (List.Perm.append_left _ (List.Perm.append_left _
        List.perm_append_comm))
    refine ⟨(h.held.fresh hslots).perm hres, fun g => ?_, fun c'' hc'' => ?_, h.clean⟩
    · rw [hw]
      exact h.shares g
    · cases hc''
      exact ⟨Controller.submit_keys_nodup hkeys hbelow hs, Controller.submit_below hbelow hs⟩

/-- A request run on the direct handler makes at most a future that is done already. -/
theorem Unshared.runDirect (h : Unshared ps D w) {d : Direct} (hd : w.handler = .direct d)
    (h' : Handle) (ns : Bytes) (op : Operation) : Unshared ps D (w.runDirect d h' ns op).2 := by
  unfold World.runDirect
  split
  · exact h
  · next res d' _ =>
    dsimp only
    split
    · exact h.direct hd d'
    · exact (h.direct hd d').push_done rfl rfl rfl rfl

/-- Taking a completion lets go of its request's future, which no one else holds. -/
theorem Unshared.beginCompletion (h : Unshared ps D w) {res : Except StateError Response}
    {ticket : Ticket} {record : Nat} {previous : Option RecordContext}
    (hb : w.beginCompletion = (some (res, ticket, record, previous), w')) :
    Unshared ps D w' ∧ w'.Free ps D ticket.future := by
  unfold World.beginCompletion at hb
  split at hb
  · next c hc =>
    split at hb
    · cases hb
    · next comp f prev c' hcb =>
      cases hb
      obtain ⟨-, rest, -, -, hget, -, hc'⟩ := Controller.beginCompletion_eq_some hcb
      have hi : c'.inFlight = c.inFlight.erase comp.id := by
        rw [hc']
        exact Controller.releasePair_inFlight _ _ _ _
      have hn : c'.nextId = c.nextId := by
        rw [hc']
        exact Controller.releasePair_nextId _ _ _ _
      obtain ⟨hkeys, hbelow⟩ := h.ids c hc
      -- the completing request is the one entry of its id
      have hperm := (Table.perm_cons_erase hkeys hget).map (·.2.promise.future)
      have hsub : List.Subperm (f.promise.future ::
          ({ w with handler := .controller c' } : World).resolvers ps D) (w.resolvers ps D) := by
        show List.Subperm ([f.promise.future] ++
          ({ w with handler := .controller c' } : World).resolvers ps D) (w.resolvers ps D)
        refine (resolvers_of_tickets_perm ?_ ?_ ?_).subperm
        · rw [tickets_of_controller hc, tickets_of_controller rfl, hi]
          exact hperm.symm
        · rfl
        · rfl
      refine ⟨⟨(h.held.subperm ((List.sublist_cons_self _ _).subperm.trans hsub)).keep
        fun _ _ hp => hp, h.shares, fun c'' hc'' => ?_, h.clean⟩,
        (h.held.free hsub).imp (fun hp => hp) id⟩
      cases hc''
      rw [hi, hn]
      exact ⟨Table.nodup_keys_erase hkeys _, fun id hid =>
        hbelow id ((Table.keys_erase_sublist _ _).subset hid)⟩
  · cases hb

/-! ## What the thread's own steps keep -/

/-- A new future with nothing waiting on it changes no party. -/
theorem resolvers_push (hs : w'.slots = w.slots.push (.pending [])) (hg : w'.gathers = w.gathers)
    (hh : w'.handler = w.handler) : w'.resolvers ps D = w.resolvers ps D := by
  simp only [resolvers, waiting_push hs, Slot.waiting, List.append_nil, tickets, hh, combining, hg]

theorem missing_push {gr : Gather} (hg : w'.gathers = w.gathers.push gr) (g : Nat) :
    w'.missing g = if g = w.gathers.size then gr.remaining else w.missing g := by
  by_cases hgs : g = w.gathers.size <;> simp [missing, hg, Array.getElem?_push, hgs]

/-- A new future with nothing waiting on it is held by a continuation on the stack that will
settle it. -/
theorem Unshared.fresh (h : Unshared ps D w) {k : Cont} (hk : k.target = some w.slots.size)
    (hkg : k.group = none) (hs : w'.slots = w.slots.push (.pending []))
    (hg : w'.gathers = w.gathers) (hh : w'.handler = w.handler)
    (hr : w'.resolvedTwice = w.resolvedTwice) : Unshared ps (k :: D) w' := by
  have hres : (w'.resolvers ps (k :: D)).Perm (w.resolvers ps D ++ [w.slots.size]) := by
    have hcons : (w'.resolvers ps (k :: D)).Perm (k.target.toList ++ w'.resolvers ps D) :=
      resolvers_cons k
    have hsame : w'.resolvers ps D = w.resolvers ps D := resolvers_push hs hg hh
    rw [hk, hsame] at hcons
    exact hcons.trans (List.perm_append_singleton _ _).symm
  refine ⟨(h.held.fresh hs).perm hres, fun g => ?_, fun c hc => h.ids c (hh ▸ hc),
    hr.trans h.clean⟩
  simpa [waiting_push hs, Slot.waiting, missing, hg, hkg] using h.shares g

/-- The composition that combines with another future hands its future to a forwarding
continuation, and holds a new future by the map that will settle it. -/
theorem Unshared.pairWith {o t : Nat} {f : Json → Json → Json}
    (h : Unshared ps (.pairWith o f t :: D) w) (x : Json) :
    Unshared ps (.map (fun y => .ok (f x y)) w.slots.size :: .forward t :: D)
      (w.newSlot (.pending [])).2 :=
  (h.swap_head rfl rfl : Unshared ps (.forward t :: D) w).fresh rfl rfl rfl rfl rfl rfl

/-- A derived future is held by the continuation that will settle it. -/
theorem Unshared.derive (h : Unshared ps [] w) (d : Derive)
    (hs : w'.slots = w.slots.push (.pending [])) (hg : w'.gathers = w.gathers)
    (hh : w'.handler = w.handler) (hr : w'.resolvedTwice = w.resolvedTwice) :
    Unshared ps [d.cont w.slots.size] w' :=
  h.fresh (Derive.target_cont d _) (Derive.group_cont d _) hs hg hh hr

/-- A new future whose promise the thread keeps. -/
theorem Unshared.promise (h : Unshared ps [] w) (hs : w'.slots = w.slots.push (.pending []))
    (hg : w'.gathers = w.gathers) (hh : w'.handler = w.handler)
    (hr : w'.resolvedTwice = w.resolvedTwice) : Unshared (w.slots.size :: ps) [] w' := by
  have hres : (w'.resolvers (w.slots.size :: ps) []).Perm
      (w.resolvers ps [] ++ [w.slots.size]) := by
    show List.Perm (w.slots.size :: w'.resolvers ps []) _
    rw [resolvers_push hs hg hh]
    exact (List.perm_append_singleton _ _).symm
  refine ⟨(h.held.fresh hs).perm hres, fun g => ?_, fun c hc => h.ids c (hh ▸ hc),
    hr.trans h.clean⟩
  simpa [waiting_push hs, Slot.waiting, missing, hg] using h.shares g

/-- A combination's future is held by the combination, which has one continuation about to be
registered for each result it misses. -/
theorem Unshared.combine (h : Unshared ps [] w) {slots : List Nat} (hne : slots ≠ [])
    (hs : w'.slots = w.slots.push (.pending []))
    (hg : w'.gathers = w.gathers.push ⟨slots.map fun _ => none, slots.length, w.slots.size⟩)
    (hh : w'.handler = w.handler) (hr : w'.resolvedTwice = w.resolvedTwice) :
    Unshared ps (slots.zipIdx.map fun x => .gather w.gathers.size x.2) w' := by
  have hw : w'.waiting = w.waiting := by simp [waiting_push hs, Slot.waiting]
  have hlen : slots.length ≠ 0 := by simpa using hne
  -- the group's continuations settle nothing themselves; the group holds its future
  have hres : w'.resolvers ps (slots.zipIdx.map fun x => .gather w.gathers.size x.2) =
      w.resolvers ps [] ++ [w.slots.size] := by
    simp [resolvers, hw, List.filterMap_append, List.filterMap_map, Function.comp_def,
      Cont.target, combining, hg, Gather.holds, hlen, tickets, hh]
  refine ⟨by rw [hres]; exact h.held.fresh hs, fun g => ?_, fun c hc => h.ids c (hh ▸ hc),
    hr.trans h.clean⟩
  rw [hw, missing_push hg]
  have hsh := h.shares g
  simp only [List.nil_append] at hsh
  simp only [List.filterMap_append, List.filterMap_map, Function.comp_def, Cont.group,
    List.count_append]
  split
  · next hgs =>
    -- a new group: nothing reported to it before
    subst hgs
    have h0 : w.missing w.gathers.size = 0 := by simp [missing]
    simp at hsh ⊢
    omega
  · next hgs =>
    have h0 : (slots.zipIdx.filterMap fun _ => some w.gathers.size).count g = 0 :=
      List.count_eq_zero.mpr (by simp [hgs])
    omega

/-- A promise the thread holds is the only party holding its future, and resolving uses it
up. -/
theorem Unshared.resolve (h : Unshared ps [] w) {i : Nat} (hi : i ∈ ps) :
    Unshared (ps.erase i) [] w ∧ w.Free (ps.erase i) [] i := by
  have hp : (i :: w.resolvers (ps.erase i) []).Perm (w.resolvers ps []) := by
    unfold resolvers
    simpa only [List.cons_append] using
      (((List.perm_cons_erase hi).symm.append_right _).append_right _).append_right _
  have hsub := hp.subperm
  exact ⟨⟨h.held.subperm ((List.sublist_cons_self _ _).subperm.trans hsub), h.shares, h.ids,
    h.clean⟩, h.held.free hsub⟩

theorem unshared_initial (cfg : Config) : Unshared [] [] (initial cfg).2 := by
  refine ⟨⟨?_, ?_⟩, ?_, ?_, rfl⟩
  · simp [resolvers, waiting, tickets, combining, initial]
  · simp [resolvers, waiting, tickets, combining, initial]
  · intro g
    simp [waiting, initial]
  · intro c hc
    cases hc
    simp

end World

open World

/-- Every step of the interpreter keeps futures single-assignment, whatever promises the thread
holds. -/
theorem Unshared.threadInvariant (ps : List Nat) : ThreadInvariant (Unshared ps) (Free ps) where
  settle r h hs hks := h.settle hs hks r
  twice h hs hdone := by
    obtain ⟨ks, hks⟩ := hs.1
    rw [hks] at hdone
    cases hdone
  append h hks := h.append hks
  drop h := h.drop
  target h hk := h.free_target hk
  pair x h := h.pairWith x
  compose h := h.swap_head rfl rfl
  log _ h := h.drop.of_frame rfl rfl rfl rfl
  gather r h := h.gather r
  flush h := h.onController Controller.steady_flush
  collect h := h.onController Controller.steady_collect
  submit h' ns op h hc _ := h.submitTo hc h' ns op
  direct h' ns op h hd := h.runDirect hd h' ns op
  begin h hb := h.beginCompletion hb
  finish _ _ h := h.onController (Controller.steady_endCompletion _ _ _)

/-- Every step of the processing thread keeps futures single-assignment. -/
theorem Unshared.callInvariant : CallInvariant Unshared Free where
  thread := Unshared.threadInvariant
  setKey key h := h.onController (Controller.steady_setCurrentKey key)
  execute i h := h.onController (Controller.steady_execute i)
  receive h := h.onController Controller.steady_receive
  shut h := h.onController Controller.steady_shut
  pace _ h := h.onController fun _ => ⟨rfl, rfl, rfl⟩
  tick _ h := h.of_frame rfl rfl rfl rfl
  ready _ h := h.push_done rfl rfl rfl rfl
  derive d h := h.derive d rfl rfl rfl rfl
  log _ _ _ h := ⟨h.held, h.shares, h.ids, h.clean⟩
  combine _ hne h := h.combine hne rfl rfl rfl rfl
  promise h := h.promise rfl rfl rfl rfl
  resolve h hi := h.resolve hi

/-- In every world the thread reaches, futures are single-assignment. -/
theorem Reaches.unshared {cfg : Config} {s : List Nat × World} (hs : Reaches cfg s) :
    Unshared s.1 [] s.2 :=
  Unshared.callInvariant.reaches (unshared_initial cfg) hs

end OrderedState
