import OrderedState.Proofs.Promises

/-!
# Single assignment and delivery

A future changes in three ways only (`Slot.Advances`): while pending it gains continuations at
the end of its list, it is settled once, and once done it keeps its result. Every step of the
processing thread moves every future along these ways (`Advances.callInvariant`), so along every
run a future that is done stays done with the same result, and the continuations registered on
a pending one stay in registration order until it is settled (`Next.advances`).

Settling runs the list it finds, with the future already done: a continuation registered from
inside one of them, on the same future, runs at once. So the registrations on a pending future
before its resolution and after it are delivered exactly once each, in registration order, by
one pass over all of them (`attach_settle_attach`).
-/

namespace OrderedState

/-- How a future may change: a pending one gains continuations at the end or is settled; one
that is done keeps its result. -/
inductive Slot.Advances : Slot → Slot → Prop
  | wait (ks more : List Cont) : Slot.Advances (.pending ks) (.pending (ks ++ more))
  | settle (ks : List Cont) (r : Outcome) : Slot.Advances (.pending ks) (.done r)
  | done (r : Outcome) : Slot.Advances (.done r) (.done r)

namespace Slot.Advances

theorem refl : ∀ s : Slot, s.Advances s
  | .pending ks => by simpa using wait ks []
  | .done r => done r

theorem trans {s₁ s₂ s₃ : Slot} (h₁ : s₁.Advances s₂) (h₂ : s₂.Advances s₃) : s₁.Advances s₃ := by
  cases h₁ with
  | wait ks more =>
    cases h₂ with
    | wait _ more' => simpa using wait ks (more ++ more')
    | settle _ r => exact settle ks r
  | settle ks r => cases h₂; exact settle ks r
  | done r => exact h₂

end Slot.Advances

namespace World

variable {w₀ w w' : World} {i : Nat}

/-- Every future of `w` is in `w'`, advanced. -/
def Advances (w w' : World) : Prop :=
  ∀ i s, w.slot? i = some s → ∃ s', w'.slot? i = some s' ∧ s.Advances s'

theorem Advances.refl (w : World) : w.Advances w :=
  fun _ s hs => ⟨s, hs, Slot.Advances.refl s⟩

theorem Advances.trans (h₁ : w₀.Advances w) (h₂ : w.Advances w') : w₀.Advances w' := by
  intro i s hs
  obtain ⟨s₁, hs₁, ha₁⟩ := h₁ i s hs
  obtain ⟨s₂, hs₂, ha₂⟩ := h₂ i s₁ hs₁
  exact ⟨s₂, hs₂, ha₁.trans ha₂⟩

theorem Advances.of_slots (h : w₀.Advances w) (hs : w'.slots = w.slots) : w₀.Advances w' := by
  intro i s hi
  obtain ⟨s', hs', ha⟩ := h i s hi
  exact ⟨s', by simpa [slot?, hs] using hs', ha⟩

theorem Advances.push {s : Slot} (h : w₀.Advances w) (hs : w'.slots = w.slots.push s) :
    w₀.Advances w' := by
  intro i s₀ hi
  obtain ⟨s', hs', ha⟩ := h i s₀ hi
  have hlt : i < w.slots.size := (Array.getElem?_eq_some_iff.mp hs').1
  exact ⟨s', (slot?_push hs hlt).trans hs', ha⟩

/-- Changing one future along its ways advances the world. -/
theorem Advances.setSlot {s s' : Slot} (h : w₀.Advances w) (hi : w.slot? i = some s)
    (ha : s.Advances s') : w₀.Advances (w.setSlot i s') := by
  intro j s₀ hj
  obtain ⟨s₁, hs₁, ha₁⟩ := h j s₀ hj
  by_cases hij : i = j
  · subst hij
    rw [hi] at hs₁
    cases hs₁
    exact ⟨s', slot?_setSlot_self hi s', ha₁.trans ha⟩
  · exact ⟨s₁, (slot?_setSlot_ne s' hij).trans hs₁, ha₁⟩

theorem onController_slots (f : Controller Ticket → Controller Ticket) :
    (w.onController f).slots = w.slots := by
  unfold onController
  split <;> rfl

theorem gatherResult_slots (g j : Nat) (r : Outcome) : (w.gatherResult g j r).2.slots = w.slots := by
  unfold gatherResult
  split
  · rfl
  · dsimp only
    split <;> rfl

theorem beginCompletion_slots {o : Option (Except StateError Response × Ticket × Nat ×
    Option RecordContext)} (hb : w.beginCompletion = (o, w')) : w'.slots = w.slots := by
  unfold World.beginCompletion at hb
  split at hb
  · split at hb <;> cases hb <;> rfl
  · cases hb; rfl

theorem Advances.submitTo (h : w₀.Advances w) (c : Controller Ticket) (h' : Handle) (ns : Bytes)
    (op : Operation) : w₀.Advances (w.submitTo c h' ns op).2 := by
  unfold World.submitTo
  dsimp only
  split
  · exact h
  · exact h.push rfl

theorem Advances.runDirect (h : w₀.Advances w) (d : Direct) (h' : Handle) (ns : Bytes)
    (op : Operation) : w₀.Advances (w.runDirect d h' ns op).2 := by
  unfold World.runDirect
  split
  · exact h
  · dsimp only
    split
    · exact h.of_slots rfl
    · exact h.push rfl

end World

open World

/-- Every step of the interpreter advances every future, from any world `w₀` on. -/
theorem Advances.threadInvariant (w₀ : World) :
    ThreadInvariant (fun _ w => w₀.Advances w) fun _ _ _ => True where
  settle r h _ hks := h.setSlot hks (.settle _ r)
  twice h _ _ := h.of_slots rfl
  append h hks := h.setSlot hks (.wait _ _)
  drop h := h
  target _ _ := trivial
  pair _ h := h.push rfl
  compose h := h
  log _ h := h.of_slots rfl
  gather _ h := ⟨h.of_slots (gatherResult_slots _ _ _), fun _ _ _ => trivial⟩
  flush h := h.of_slots (onController_slots _)
  collect h := h.of_slots (onController_slots _)
  submit h' ns op h _ _ := h.submitTo _ h' ns op
  direct h' ns op h _ := h.runDirect _ h' ns op
  begin h hb := ⟨h.of_slots (beginCompletion_slots hb), trivial⟩
  finish _ _ h := h.of_slots (onController_slots _)

/-- Every step of the processing thread advances every future, from any world `w₀` on. -/
theorem Advances.callInvariant (w₀ : World) :
    CallInvariant (fun _ _ w => w₀.Advances w) fun _ _ _ _ => True where
  thread _ := Advances.threadInvariant w₀
  setKey _ h := h.of_slots (onController_slots _)
  execute _ h := h.of_slots (onController_slots _)
  receive h := h.of_slots (onController_slots _)
  shut h := h.of_slots (onController_slots _)
  pace _ h := h.of_slots (onController_slots _)
  tick _ h := h.of_slots rfl
  ready _ h := h.push rfl
  derive _ h := h.push rfl
  log _ _ _ h := h
  combine _ _ h := h.push rfl
  promise h := h.push rfl
  resolve h _ := ⟨h, trivial⟩

/-- Along every run, every future advances. -/
theorem Next.advances {s s' : List Nat × World} (hs : Relation.ReflTransGen Next s s') :
    s.2.Advances s'.2 :=
  (Advances.callInvariant s.2).run hs (World.Advances.refl s.2)

namespace World

variable {w w' : World} {i : Nat}

/-- A future that is done keeps its result. -/
theorem Advances.done {r : Outcome} (h : w.Advances w') (hi : w.slot? i = some (.done r)) :
    w'.slot? i = some (.done r) := by
  obtain ⟨s', hs', ha⟩ := h i _ hi
  cases ha
  exact hs'

/-- A pending future keeps its continuations, in order, until it is settled. -/
theorem Advances.pending {ks : List Cont} (h : w.Advances w')
    (hi : w.slot? i = some (.pending ks)) :
    (∃ more, w'.slot? i = some (.pending (ks ++ more))) ∨ ∃ r, w'.slot? i = some (.done r) := by
  obtain ⟨s', hs', ha⟩ := h i _ hi
  cases ha with
  | wait _ more => exact .inl ⟨more, hs'⟩
  | settle _ r => exact .inr ⟨r, hs'⟩

theorem setSlot_self {s : Slot} (h : w.slot? i = some s) : w.setSlot i s = w := by
  have hslots : w.slots.setIfInBounds i s = w.slots := by
    refine Array.ext_getElem? fun j => ?_
    rw [Array.getElem?_setIfInBounds]
    split
    · next hij =>
      subst hij
      have hi : i < w.slots.size := (Array.getElem?_eq_some_iff.mp h).1
      rw [if_pos hi]
      exact h.symm
    · rfl
  unfold setSlot
  rw [hslots]

theorem setSlot_setSlot (s s' : Slot) : (w.setSlot i s).setSlot i s' = w.setSlot i s' := by
  simp [setSlot, Array.setIfInBounds_setIfInBounds]

end World

/-! ## Delivering a result -/

theorem Run.run_bind {α β : Type} (m : Run α) (f : α → Run β) (w : World) :
    (m >>= f).run w = (f (m.run w).1).run (m.run w).2 := rfl

theorem Run.run_get (w : World) : (get : Run World).run w = (w, w) := rfl

theorem Run.run_modify (f : World → World) (w : World) :
    (modify f : Run Unit).run w = ((), f w) := rfl

theorem Run.run_modifyGet {α : Type} (f : World → α × World) (w : World) :
    (modifyGet f : Run α).run w = f w := rfl

theorem Run.run_forM_nil {ι : Type} (f : ι → Run PUnit) (w : World) :
    (([] : List ι).forM f).run w = ((), w) := rfl

theorem Run.run_forM_cons {ι : Type} (f : ι → Run PUnit) (x : ι) (xs : List ι) (w : World) :
    ((x :: xs).forM f).run w = (xs.forM f).run ((f x).run w).2 := rfl

theorem Run.run_forM_append {ι : Type} (f : ι → Run PUnit) (xs ys : List ι) (w : World) :
    ((xs ++ ys).forM f).run w = (ys.forM f).run ((xs.forM f).run w).2 := by
  induction xs generalizing w with
  | nil => rfl
  | cons x xs ih => exact ih ((f x).run w).2

section Delivery

variable {w : World} {i n : Nat}

theorem attach_pending {k : Cont} {ks : List Cont} (hks : w.slot? i = some (.pending ks)) :
    (attach (n + 1) i k).run w = ((), w.setSlot i (.pending (ks ++ [k]))) := by
  rw [attach, Run.run_bind, Run.run_get]
  dsimp only
  rw [hks]
  rfl

theorem attach_done {k : Cont} {r : Outcome} (hr : w.slot? i = some (.done r)) :
    (attach (n + 1) i k).run w = (resume n k r).run w := by
  rw [attach, Run.run_bind, Run.run_get]
  dsimp only
  rw [hr]

theorem settle_pending {r : Outcome} {ks : List Cont} (hks : w.slot? i = some (.pending ks)) :
    (settle (n + 1) i r).run w = (ks.forM fun k => resume n k r).run (w.setSlot i (.done r)) := by
  rw [settle, Run.run_bind, Run.run_get]
  dsimp only
  rw [hks]
  rfl

/-- Running continuations leaves every future advanced. -/
theorem resumeAll_advances (ks : List Cont) (r : Outcome) :
    w.Advances ((ks.forM fun k => resume n k r).run w).2 :=
  ((Advances.threadInvariant w).keeps n).resumeAll ks r [] w (World.Advances.refl w)

/-- Continuations registered on a pending future join the end of its list. -/
theorem attachAll_pending :
    ∀ {w : World} {ks : List Cont} (pre : List Cont), w.slot? i = some (.pending ks) →
      (pre.forM (attach (n + 1) i)).run w = ((), w.setSlot i (.pending (ks ++ pre)))
  | w, ks, [], hks => by
    rw [List.append_nil, World.setSlot_self hks]
    rfl
  | w, ks, k :: rest, hks => by
    rw [Run.run_forM_cons, attach_pending hks]
    dsimp only
    rw [attachAll_pending rest (World.slot?_setSlot_self hks _), World.setSlot_setSlot,
      List.append_assoc, List.singleton_append]

/-- Continuations registered on a future that is done run at once, one after the other. -/
theorem attachAll_done {r : Outcome} :
    ∀ {w : World} (post : List Cont), w.slot? i = some (.done r) →
      (post.forM (attach (n + 1) i)).run w = (post.forM fun k => resume n k r).run w
  | w, [], _ => rfl
  | w, k :: rest, hr => by
    rw [Run.run_forM_cons, Run.run_forM_cons, attach_done hr]
    -- the continuation that ran leaves the future done with the same result
    have hstill := (((Advances.threadInvariant w).keeps n).resume k r [] w
      (World.Advances.refl w)).done hr
    exact attachAll_done rest hstill

/-- Registering `pre` on a pending future, resolving it with `r` and registering `post` runs
every continuation registered on it exactly once, with `r`, in registration order. -/
theorem attach_settle_attach {ks : List Cont} (hks : w.slot? i = some (.pending ks))
    (r : Outcome) (pre post : List Cont) :
    (do pre.forM (attach (n + 1) i); settle (n + 1) i r; post.forM (attach (n + 1) i)).run w =
      (do modify fun x : World => x.setSlot i (.done r)
          (ks ++ pre ++ post).forM fun k => resume n k r).run w := by
  rw [Run.run_bind, attachAll_pending pre hks, Run.run_bind,
    settle_pending (World.slot?_setSlot_self hks _), World.setSlot_setSlot, Run.run_bind,
    Run.run_modify, Run.run_forM_append _ (ks ++ pre) post]
  dsimp only
  -- after the first pass the future is still done with `r`, so `post` runs at once
  exact attachAll_done post ((resumeAll_advances (ks ++ pre) r).done
    (World.slot?_setSlot_self hks _))

end Delivery

/-- Futures are single-assignment, and deliver their result to every continuation exactly once.
On every run of the processing thread from a fresh controller, whatever promises it holds, no
future is ever resolved a second time. Along every run, a future that is done keeps its result,
and a pending one keeps the continuations registered on it, in registration order, until it is
settled. And registering continuations `pre` on a pending future, resolving it with `r` and
registering `post` runs every continuation on it (those registered before, `ks`, then `pre`,
then `post`) exactly once, with `r`, in that order, each of `post` at once. -/
theorem futures_single_assignment (cfg : Config) :
    (∀ ps w, Reaches cfg (ps, w) → w.resolvedTwice = false) ∧
    (∀ s s' : List Nat × World, Relation.ReflTransGen Next s s' → ∀ i,
      (∀ r, s.2.slot? i = some (.done r) → s'.2.slot? i = some (.done r)) ∧
      (∀ ks, s.2.slot? i = some (.pending ks) →
        (∃ more, s'.2.slot? i = some (.pending (ks ++ more))) ∨
          ∃ r, s'.2.slot? i = some (.done r))) ∧
    (∀ (n : Nat) (w : World) (i : Nat) (ks : List Cont) (r : Outcome) (pre post : List Cont),
      w.slot? i = some (.pending ks) →
      (do pre.forM (attach (n + 1) i); settle (n + 1) i r; post.forM (attach (n + 1) i)).run w =
        (do modify fun x : World => x.setSlot i (.done r)
            (ks ++ pre ++ post).forM fun k => resume n k r).run w) := by
  refine ⟨fun ps w hw => hw.unshared.clean, fun s s' hs i => ?_,
    fun n w i ks r pre post hks => attach_settle_attach hks r pre post⟩
  have ha := Next.advances hs
  exact ⟨fun r hr => ha.done hr, fun ks hks => ha.pending hks⟩

end OrderedState
