import Mathlib.Logic.Relation
import OrderedState.Session.Run

/-!
# What every computation of the processing thread keeps

The processing thread runs one interpreter (`Session.Run`): settling a future runs its
continuations, a continuation may settle another future, register on one, or run operations
that submit requests and wait for them, and waiting takes completions, which settle more
futures. The recursion goes as deep as the continuations make it, so a fact about every state
the thread passes through cannot be proved function by function; it is proved once here for all
of them.

A `ThreadInvariant I S` is a property `I D w` of the world `w` and of the continuations `D` that
the thread holds on its stack: those taken from a settled future and not yet run, and one about
to be registered. `S D w i` says that slot `i` may be settled now. The structure lists what
each primitive step of the interpreter must keep: settling a pending future moves its
continuations onto the stack, registering moves one from the stack into a pending future, a
continuation leaves the stack when it runs, and so on. `ThreadInvariant.keeps` then shows, by
induction on the budget, that every function of the interpreter keeps `I`
(`ThreadInvariant.Keeps`), whatever its arguments and its budget.

The statements are Hoare triples on the state monad (`Run.Spec`), built up through the binds
of each function with the rules of `Run.Spec`.

A `Call` is one operation the processing thread makes on its own: start a record, run an
operation of a handle, drive the controller, make a future, derive one from another or combine
several. The thread also holds the promises of some futures, and may resolve each once
(`Next`). `Reaches` is every world such steps lead to from a fresh controller, and a
`CallInvariant`, kept by every step, holds in all of them (`CallInvariant.reaches`).
-/

namespace OrderedState

variable {α β : Type}

/-! ## Triples on the processing thread's state -/

/-- A computation of the processing thread, from a world where `P` holds, ends in one where
`Q` holds of its value. -/
def Run.Spec (P : World → Prop) (m : Run α) (Q : α → World → Prop) : Prop :=
  ∀ w, P w → Q (m.run w).1 (m.run w).2

namespace Run.Spec

variable {P P' : World → Prop} {Q : α → World → Prop} {R : β → World → Prop}

theorem bind {m : Run α} {f : α → Run β} (hm : Spec P m Q) (hf : ∀ a, Spec (Q a) (f a) R) :
    Spec P (m >>= f) R := fun w hw => hf _ _ (hm w hw)

theorem pure {a : α} (h : ∀ w, P w → Q a w) : Spec P (Pure.pure a) Q := h

theorem get {Q : World → World → Prop} (h : ∀ w, P w → Q w w) : Spec P MonadState.get Q := h

theorem modify {f : World → World} {Q : Unit → World → Prop} (h : ∀ w, P w → Q () (f w)) :
    Spec P (modify f) Q := h

theorem modifyGet {f : World → α × World} (h : ∀ w, P w → Q (f w).1 (f w).2) :
    Spec P (modifyGet f) Q := h

theorem pre {m : Run α} (h : ∀ w, P w → P' w) (hm : Spec P' m Q) : Spec P m Q :=
  fun w hw => hm w (h w hw)

/-- A loop over a list keeps `I` of what is left to do, down to nothing. -/
theorem forM {ι : Type} {I : List ι → World → Prop} {f : ι → Run Unit}
    (hf : ∀ x xs, Spec (I (x :: xs)) (f x) fun _ => I xs) :
    ∀ xs, Spec (I xs) (xs.forM f) fun _ => I [] := by
  intro xs
  induction xs with
  | nil => exact pure fun w hw => hw
  | cons x xs ih => exact bind (hf x xs) fun _ => ih

end Run.Spec

/-! ## The primitive steps -/

/-- The future a continuation settles when it runs, for those that settle one of their own; a
combination's continuation settles the combination's future, which its group names. -/
def Cont.target : Cont → Option Nat
  | .map _ t | .pairWith _ _ t | .compose _ t | .forward t => some t
  | .log .. | .gather .. => none

/-- Taking no completion leaves the world as it was. -/
theorem World.beginCompletion_none {w w' : World} (h : w.beginCompletion = (none, w')) :
    w' = w := by
  unfold World.beginCompletion at h
  split at h
  · split at h
    · exact (Prod.mk.inj h).2.symm
    · cases h
  · exact (Prod.mk.inj h).2.symm

open Run

/-- What the primitive steps of the interpreter keep of a property `I D w` of the world and of
the continuations `D` on the thread's stack, when `S D w i` says which futures may be settled. -/
structure ThreadInvariant (I : List Cont → World → Prop) (S : List Cont → World → Nat → Prop) :
    Prop where
  /-- A pending future that may be settled becomes done, its continuations on the stack. -/
  settle : ∀ {D w i ks} r, I D w → S D w i → w.slot? i = some (.pending ks) →
    I (ks ++ D) (w.setSlot i (.done r))
  /-- A future that may be settled but is done already is marked as resolved twice. -/
  twice : ∀ {D w i r}, I D w → S D w i → w.slot? i = some (.done r) →
    I D { w with resolvedTwice := true }
  /-- A continuation registered on a pending future leaves the stack. -/
  append : ∀ {D w i ks k}, I (k :: D) w → w.slot? i = some (.pending ks) →
    I D (w.setSlot i (.pending (ks ++ [k])))
  /-- A continuation may leave the stack without running, for want of budget. -/
  drop : ∀ {D w k}, I (k :: D) w → I D w
  /-- A continuation that settles its own future may settle it. -/
  target : ∀ {D w k t}, I (k :: D) w → k.target = some t → S D w t
  /-- The composition that combines with another future makes a new future, which a map
  registered on the other future will settle, and forwards from it. -/
  pair : ∀ {D w o f t} x, I (.pairWith o f t :: D) w →
    I (.map (fun y => .ok (f x y)) w.slots.size :: .forward t :: D) (w.newSlot (.pending [])).2
  /-- A composed continuation becomes the one that forwards to its future. -/
  compose : ∀ {D w p t}, I (.compose p t :: D) w → I (.forward t :: D) w
  log : ∀ {D w f tag keyed} r, I (.log f tag keyed :: D) w → I D (w.record f tag keyed r)
  /-- A combination records a result, and may settle its future once the last one is in. -/
  gather : ∀ {D w g j} r, I (.gather g j :: D) w → I D (w.gatherResult g j r).2 ∧
    ∀ t out, (w.gatherResult g j r).1 = some (t, out) → S D (w.gatherResult g j r).2 t
  flush : ∀ {D w}, I D w → I D (w.onController Controller.flush)
  collect : ∀ {D w}, I D w → I D (w.onController Controller.collect)
  /-- A request is submitted only below the in-flight limit. -/
  submit : ∀ {D w c} h ns op, I D w → w.handler = .controller c → w.full = false →
    I D (w.submitTo c h ns op).2
  direct : ∀ {D w d} h ns op, I D w → w.handler = .direct d → I D (w.runDirect d h ns op).2
  /-- Taking a completion may settle the request's future. -/
  begin : ∀ {D w res ticket record previous w'}, I D w →
    w.beginCompletion = (some (res, ticket, record, previous), w') → I D w' ∧ S D w' ticket.future
  finish : ∀ {D w} record previous, I D w → I D (w.endCompletion record previous)

namespace ThreadInvariant

variable {I : List Cont → World → Prop} {S : List Cont → World → Nat → Prop}

/-- Every function of the interpreter at budget `n` keeps `I`: settling takes a future that may
be settled, running or registering a continuation takes it off the stack, and waiting for room
gives whether the controller is below its limit. -/
structure Keeps (I : List Cont → World → Prop) (S : List Cont → World → Nat → Prop) (n : Nat) :
    Prop where
  settle : ∀ i r D, Spec (fun w => I D w ∧ S D w i) (OrderedState.settle n i r) fun _ => I D
  resume : ∀ k r D, Spec (I (k :: D)) (OrderedState.resume n k r) fun _ => I D
  attach : ∀ i k D, Spec (I (k :: D)) (OrderedState.attach n i k) fun _ => I D
  perform : ∀ p x q D, Spec (I D) (OrderedState.perform n p x q) fun _ => I D
  invoke : ∀ h name args D, Spec (I D) (OrderedState.invoke n h name args) fun _ => I D
  request : ∀ h op D, Spec (I D) (OrderedState.request n h op) fun _ => I D
  makeRoom : ∀ D, Spec (I D) (OrderedState.makeRoom n) fun b w =>
    I D w ∧ (b = true → w.full = false)
  pass : ∀ D, Spec (I D) (OrderedState.pass n) fun _ => I D
  takeAll : ∀ m D, Spec (I D) (OrderedState.takeAll n m) fun _ => I D
  waitFor : ∀ i D, Spec (I D) (OrderedState.waitFor n i) fun _ => I D

/-- Running the continuations of a settled future takes each off the stack in turn. -/
theorem Keeps.resumeAll {n : Nat} (ih : Keeps I S n) (ks : List Cont) (r : Outcome)
    (D : List Cont) :
    Spec (I (ks ++ D)) (ks.forM fun k => OrderedState.resume n k r) fun _ => I D :=
  Spec.forM (I := fun xs => I (xs ++ D)) (fun x xs => ih.resume x r (xs ++ D)) ks

theorem keeps_zero (hI : ThreadInvariant I S) : Keeps I S 0 where
  settle _ _ _ := by rw [OrderedState.settle]; exact Spec.pure fun _ hw => hw.1
  resume _ _ _ := by rw [OrderedState.resume]; exact Spec.pure fun _ hw => hI.drop hw
  attach _ _ _ := by rw [OrderedState.attach]; exact Spec.pure fun _ hw => hI.drop hw
  perform _ _ _ _ := by rw [OrderedState.perform]; exact Spec.pure fun _ hw => hw
  invoke _ _ _ _ := by rw [OrderedState.invoke]; exact Spec.pure fun _ hw => hw
  request _ _ _ := by rw [OrderedState.request]; exact Spec.pure fun _ hw => hw
  makeRoom _ := by
    rw [OrderedState.makeRoom]
    refine Spec.bind (Spec.get (Q := fun a w => _ ∧ a = w) fun w hw => ⟨hw, rfl⟩) fun _ => ?_
    refine Spec.pure fun w hw => ?_
    obtain ⟨hw, rfl⟩ := hw
    exact ⟨hw, by simp⟩
  pass _ := by rw [OrderedState.pass]; exact Spec.pure fun _ hw => hw
  takeAll _ _ := by rw [OrderedState.takeAll]; exact Spec.pure fun _ hw => hw
  waitFor _ _ := by rw [OrderedState.waitFor]; exact Spec.pure fun _ hw => hw

/-- A continuation that settles its own future, taken off the stack to do it. -/
theorem settle_target (hI : ThreadInvariant I S) {n : Nat} (ih : Keeps I S n) {k : Cont}
    {t : Nat} (hk : k.target = some t) (r : Outcome) (D : List Cont) :
    Spec (I (k :: D)) (OrderedState.settle n t r) fun _ => I D :=
  Spec.pre (fun _ hw => ⟨hI.drop hw, hI.target hw hk⟩) (ih.settle t r D)

theorem keeps_resume (hI : ThreadInvariant I S) {n : Nat} (ih : Keeps I S n) (k : Cont)
    (r : Outcome) (D : List Cont) :
    Spec (I (k :: D)) (OrderedState.resume (n + 1) k r) fun _ => I D := by
  cases k with
  | log f tag keyed =>
    rw [OrderedState.resume]
    exact Spec.modify fun w hw => hI.log r hw
  | map fn t => rw [OrderedState.resume]; exact hI.settle_target ih rfl _ D
  | pairWith o f t =>
    cases r with
    | ok x =>
      rw [OrderedState.resume]
      -- the new future is settled by the map on `o`, and the pairing's future follows it
      refine Spec.bind (Spec.modifyGet
        (Q := fun t' => I (.map (fun y => .ok (f x y)) t' :: .forward t :: D))
        fun w hw => hI.pair x hw) fun t' => ?_
      exact Spec.bind (ih.attach o _ _) fun _ => ih.attach t' _ D
    | error e => rw [OrderedState.resume]; exact hI.settle_target ih rfl _ D
  | gather g j =>
    rw [OrderedState.resume]
    refine Spec.bind (Spec.modifyGet (Q := fun o w => I D w ∧ ∀ t out, o = some (t, out) →
      S D w t) fun w hw => hI.gather r hw) fun o => ?_
    split
    · next t out => exact Spec.pre (fun w hw => ⟨hw.1, hw.2 t out rfl⟩) (ih.settle t out D)
    · exact Spec.pure fun w hw => hw.1
  | compose p t =>
    cases r with
    | ok x =>
      rw [OrderedState.resume]
      -- while the entries run, the composed future waits in the continuation that will
      -- forward to it
      refine Spec.bind (Spec.pre (fun w hw => hI.compose hw) (ih.perform p x none _))
        fun res => ?_
      split
      · exact ih.attach _ _ D
      · exact hI.settle_target ih rfl _ D
      · exact hI.settle_target ih rfl _ D
    | error e => rw [OrderedState.resume]; exact hI.settle_target ih rfl _ D
  | forward t => rw [OrderedState.resume]; exact hI.settle_target ih rfl _ D

theorem keeps_request (hI : ThreadInvariant I S) {n : Nat} (ih : Keeps I S n) (h : Handle)
    (op : Operation) (D : List Cont) :
    Spec (I D) (OrderedState.request (n + 1) h op) fun _ => I D := by
  rw [OrderedState.request]
  split
  · exact Spec.pure fun w hw => hw
  · refine Spec.bind (Spec.get (Q := fun a w => I D w ∧ a = w) fun w hw => ⟨hw, rfl⟩)
      fun a => ?_
    split
    · exact Spec.pure fun w hw => hw.1
    · next d hd =>
      exact Spec.modifyGet fun w hw => by
        obtain ⟨hw, rfl⟩ := hw
        exact hI.direct h _ op hw hd
    · split
      · exact Spec.pure fun w hw => hw.1
      · exact Spec.pure fun w hw => hw.1
      · -- the request is submitted only once the wait for room has found some
        refine Spec.bind (Spec.pre (fun w hw => hw.1) (ih.makeRoom D)) fun b => ?_
        split
        · next hb =>
          refine Spec.bind (Spec.get (Q := fun a w => (I D w ∧ w.full = false) ∧ a = w)
            fun w hw => ⟨⟨hw.1, hw.2 hb⟩, rfl⟩) fun a => ?_
          split
          · next c' hc =>
            refine Spec.bind (Spec.modifyGet (Q := fun _ => I D) fun w hw => by
              obtain ⟨⟨hw, hfull⟩, rfl⟩ := hw
              exact hI.submit h _ op hw hc hfull) fun s => ?_
            split
            · exact Spec.pure fun w hw => hw
            · split
              · refine Spec.bind (ih.waitFor _ D) fun v => ?_
                split <;> exact Spec.pure fun w hw => hw
              · exact Spec.pure fun w hw => hw
          · exact Spec.pure fun w hw => hw.1.1
        · exact Spec.pure fun w hw => hw.1

theorem keeps_takeAll (hI : ThreadInvariant I S) {n : Nat} (ih : Keeps I S n) (m : Nat)
    (D : List Cont) : Spec (I D) (OrderedState.takeAll (n + 1) m) fun _ => I D := by
  rw [OrderedState.takeAll]
  refine Spec.bind (Spec.modifyGet (Q := fun o w => I D w ∧
    ∀ res ticket record previous, o = some (res, ticket, record, previous) →
      S D w ticket.future) fun w hw => ?_) fun o => ?_
  · rcases hb : w.beginCompletion with ⟨_ | ⟨res, ticket, record, previous⟩, w'⟩
    · rw [World.beginCompletion_none hb]
      exact ⟨hw, fun _ _ _ _ h => by cases h⟩
    · obtain ⟨hw', hs⟩ := hI.begin hw hb
      refine ⟨hw', ?_⟩
      rintro _ _ _ _ ⟨⟩
      exact hs
  · split
    · exact Spec.pure fun w hw => hw.1
    · next res ticket record previous =>
      refine Spec.bind (Spec.pre (fun w hw => ⟨hw.1, hw.2 _ _ _ _ rfl⟩)
        (ih.settle ticket.future _ D)) fun _ => ?_
      exact Spec.bind (Spec.modify (Q := fun _ => I D) fun w hw => hI.finish _ _ hw)
        fun _ => ih.takeAll _ D

theorem keeps_succ (hI : ThreadInvariant I S) {n : Nat} (ih : Keeps I S n) :
    Keeps I S (n + 1) where
  settle i r D := by
    rw [OrderedState.settle]
    refine Spec.bind (Spec.get (Q := fun a w => (I D w ∧ S D w i) ∧ a = w)
      fun w hw => ⟨hw, rfl⟩) fun a => ?_
    split
    · next ks hks =>
      refine Spec.bind (Spec.modify (Q := fun _ => I (ks ++ D)) ?_) fun _ => ?_
      · rintro w ⟨⟨hw, hs⟩, rfl⟩
        exact hI.settle r hw hs hks
      · exact ih.resumeAll ks r D
    · next r' hdone =>
      exact Spec.modify fun w hw => by
        obtain ⟨⟨hw, hs⟩, rfl⟩ := hw
        exact hI.twice hw hs hdone
    · exact Spec.pure fun w hw => hw.1.1
  resume := hI.keeps_resume ih
  attach i k D := by
    rw [OrderedState.attach]
    refine Spec.bind (Spec.get (Q := fun a w => I (k :: D) w ∧ a = w) fun w hw => ⟨hw, rfl⟩)
      fun a => ?_
    split
    · next ks hks =>
      exact Spec.modify fun w hw => by
        obtain ⟨hw, rfl⟩ := hw
        exact hI.append hw hks
    · next r' _ => exact Spec.pre (fun w hw => hw.1) (ih.resume k r' D)
    · exact Spec.pure fun w hw => hI.drop hw.1
  perform p x q D := by
    cases p with
    | nil => rw [OrderedState.perform]; exact Spec.pure fun w hw => hw
    | cons e rest =>
      cases e with
      | await s => rw [OrderedState.perform]; exact ih.perform rest x _ D
      | call h name args valueFrom =>
        rw [OrderedState.perform]
        split
        · exact Spec.pure fun w hw => hw
        · refine Spec.bind (ih.invoke h name _ D) fun res => ?_
          split
          · exact ih.perform rest x _ D
          · exact ih.perform rest _ none D
          · exact Spec.pure fun w hw => hw
  invoke h name args D := by
    rw [OrderedState.invoke]
    split
    · exact Spec.pure fun w hw => hw
    · exact ih.request h _ D
  request := hI.keeps_request ih
  makeRoom D := by
    rw [OrderedState.makeRoom]
    refine Spec.bind (Spec.get (Q := fun a w => I D w ∧ a = w) fun w hw => ⟨hw, rfl⟩)
      fun a => ?_
    split
    · exact Spec.bind (Spec.pre (fun w hw => hw.1) (ih.pass D)) fun _ => ih.makeRoom D
    · next hfull =>
      exact Spec.pure fun w hw => by
        obtain ⟨hw, rfl⟩ := hw
        exact ⟨hw, fun _ => by simpa using hfull⟩
  pass D := by
    rw [OrderedState.pass]
    refine Spec.bind (Spec.modify (Q := fun _ => I D) fun w hw => hI.flush hw) fun _ => ?_
    refine Spec.bind (Spec.modify (Q := fun _ => I D) fun w hw => hI.collect hw) fun _ => ?_
    refine Spec.bind (ih.takeAll 0 D) fun m => ?_
    exact Spec.bind (Spec.modify (Q := fun _ => I D) fun w hw => hI.flush hw) fun _ =>
      Spec.pure fun w hw => hw
  takeAll := hI.keeps_takeAll ih
  waitFor i D := by
    rw [OrderedState.waitFor]
    refine Spec.bind (Spec.get (Q := fun a w => I D w ∧ a = w) fun w hw => ⟨hw, rfl⟩)
      fun a => ?_
    split
    · exact Spec.pure fun w hw => hw.1
    · refine Spec.bind (Spec.pre (fun w hw => hw.1) (ih.pass D)) fun m => ?_
      refine Spec.bind (Spec.get (Q := fun a w => I D w ∧ a = w) fun w hw => ⟨hw, rfl⟩)
        fun a => ?_
      split
      · split <;> exact Spec.pure fun w hw => hw.1
      · exact Spec.pre (fun w hw => hw.1) (ih.waitFor i D)

/-- Every function of the interpreter, at every budget, keeps an invariant that its primitive
steps keep. -/
theorem keeps (hI : ThreadInvariant I S) : ∀ n, Keeps I S n
  | 0 => hI.keeps_zero
  | n + 1 => hI.keeps_succ (hI.keeps n)

/-! ## The functions outside the recursion -/

theorem keeps_settleAll (hI : ThreadInvariant I S) (D : List Cont) :
    ∀ n, Spec (I D) (OrderedState.settleAll n) fun _ => I D
  | 0 => by rw [OrderedState.settleAll]; exact Spec.pure fun _ hw => hw
  | n + 1 => by
    rw [OrderedState.settleAll]
    refine Spec.bind (Spec.get (Q := fun a w => I D w ∧ a = w) fun w hw => ⟨hw, rfl⟩)
      fun a => ?_
    split
    · exact Spec.bind (Spec.pre (fun w hw => hw.1) ((hI.keeps n).pass D)) fun _ =>
        hI.keeps_settleAll D n
    · exact Spec.pure fun w hw => hw.1

theorem keeps_waitWithin (hI : ThreadInvariant I S) (i ms : Nat) (D : List Cont) :
    ∀ n, Spec (I D) (OrderedState.waitWithin n i ms) fun _ => I D
  | 0 => by rw [OrderedState.waitWithin]; exact Spec.pure fun _ hw => hw
  | n + 1 => by
    rw [OrderedState.waitWithin]
    refine Spec.bind (Spec.get (Q := fun a w => I D w ∧ a = w) fun w hw => ⟨hw, rfl⟩)
      fun a => ?_
    split
    · exact Spec.pure fun w hw => hw.1
    · split
      · exact Spec.pure fun w hw => hw.1
      · exact Spec.bind (Spec.pre (fun w hw => hw.1) ((hI.keeps n).pass D)) fun _ =>
          hI.keeps_waitWithin i ms D n

theorem keeps_poll (hI : ThreadInvariant I S) (n : Nat) (D : List Cont) :
    Spec (I D) (OrderedState.poll n) fun _ => I D := by
  unfold OrderedState.poll
  refine Spec.bind (Spec.get (Q := fun a w => I D w ∧ a = w) fun w hw => ⟨hw, rfl⟩)
    fun a => ?_
  -- the rest of the body follows both branches of the first test
  dsimp only
  split
  case' isTrue =>
    refine Spec.bind (Spec.modify (Q := fun _ => I D) fun w hw => hI.flush hw.1) fun _ => ?_
  case' isFalse => refine Spec.pre (fun w hw => hw.1) ?_
  all_goals
    refine Spec.bind (Spec.modify (Q := fun _ => I D) fun w hw => hI.collect hw) fun _ => ?_
    refine Spec.bind ((hI.keeps n).takeAll 0 D) fun m => ?_
    split
    · exact Spec.bind (Spec.modify fun w hw => hI.flush hw) fun _ => Spec.pure fun w hw => hw
    · exact Spec.pure fun w hw => hw

end ThreadInvariant

/-! ## The thread's own calls -/

/-- A continuation the thread derives a new future with, which it settles: a function of the
result's value, the combination with another future's value by a function, or what a composed
continuation leaves. -/
inductive Derive where
  | map (fn : Json → Outcome)
  | pair (other : Nat) (f : Json → Json → Json)
  | compose (program : List Inner)

/-- The continuation that settles the derived future `t`. -/
def Derive.cont : Derive → Nat → Cont
  | .map fn, t => .map fn t
  | .pair o f, t => .pairWith o f t
  | .compose p, t => .compose p t

/-- An operation the processing thread makes on its own, as the library offers it: start a
record, run an operation of a handle, wait for room under the in-flight limit, drive the
controller (or let the executor run a batch it holds and deliver it), make a future that is
done, derive a future from another, log a future's result, or combine futures; and time moves
on. -/
inductive Call where
  | setKey (key : Nat)
  | invoke (h : Handle) (name : String) (args : Json)
  | request (h : Handle) (op : Operation)
  | room
  | trigger
  | execute (batch : Nat)
  | receive
  | poll
  | turn
  | wait (slot : Nat)
  | waitWithin (slot ms : Nat)
  | drain
  | close
  | ready (r : Outcome)
  | derive (src : Nat) (d : Derive)
  | onComplete (src f : Nat) (tag : Json) (keyed : Bool)
  | combine (slots : List Nat)
  | tick (ms : Nat)

/-- Makes a call at budget `fuel`. -/
def Call.run (fuel : Nat) : Call → Run Unit
  | .setKey key => modify (·.onController (·.setCurrentKey key))
  | .invoke h name args => OrderedState.invoke fuel h name args >>= fun _ => pure ()
  | .request h op => OrderedState.request fuel h op >>= fun _ => pure ()
  | .room => makeRoom fuel >>= fun _ => pure ()
  | .trigger => modify (·.onController Controller.flush)
  | .execute i => modify (·.onController (·.execute i))
  | .receive => modify (·.onController Controller.receive)
  | .poll => OrderedState.poll fuel >>= fun _ => pure ()
  | .turn => pass fuel >>= fun _ => pure ()
  | .wait i => waitFor fuel i >>= fun _ => pure ()
  | .waitWithin i ms => OrderedState.waitWithin fuel i ms >>= fun _ => pure ()
  | .drain => settleAll fuel
  | .close => shutDown fuel
  | .ready r => modifyGet (·.newSlot (.done r)) >>= fun _ => pure ()
  | .derive src d => modifyGet (·.newSlot (.pending [])) >>= fun t => attach fuel src (d.cont t)
  | .onComplete src f tag keyed => attach fuel src (.log f tag keyed)
  | .combine slots => OrderedState.combine fuel slots >>= fun _ => pure ()
  | .tick ms => modify fun w => { w with clock := w.clock + ms }

/-- One step of the processing thread, which also holds the promises of some futures: a call, a
new pending future whose promise it keeps, or a resolution through a promise it holds, which
uses the promise up (completing it, or dropping it with `Abandoned`). -/
inductive Next : List Nat × World → List Nat × World → Prop
  | call {ps : List Nat} {w : World} (c : Call) (fuel : Nat) :
      Next (ps, w) (ps, ((c.run fuel).run w).2)
  | promise {ps : List Nat} {w : World} :
      Next (ps, w) (w.slots.size :: ps, (w.newSlot (.pending [])).2)
  | resolve {ps : List Nat} {w : World} {i : Nat} (fuel : Nat) (r : Outcome) (hi : i ∈ ps) :
      Next (ps, w) (ps.erase i, ((settle fuel i r).run w).2)
  /-- The executor changes pace: from now on it may run any of the batches it holds, in any
  order, before each turn of the controller. -/
  | pace {ps : List Nat} {w : World} (p : List (List Nat)) :
      Next (ps, w) (ps, w.onController fun c => { c with pace := p })

/-- A fresh controller with configuration `cfg`, and no promise held. -/
def initial (cfg : Config) : List Nat × World :=
  ([], { handler := .controller { config := cfg } })

/-- The promises held and the worlds the processing thread reaches from a fresh controller, by
its own steps at any budgets and as time goes by. -/
def Reaches (cfg : Config) (s : List Nat × World) : Prop :=
  Relation.ReflTransGen Next (initial cfg) s

/-- What the thread's own steps need of an invariant `I ps D w`, where `ps` are the futures
whose promises the thread holds, beyond the interpreter's steps. -/
structure CallInvariant (I : List Nat → List Cont → World → Prop)
    (S : List Nat → List Cont → World → Nat → Prop) : Prop where
  thread : ∀ ps, ThreadInvariant (I ps) (S ps)
  setKey : ∀ {ps w} key, I ps [] w → I ps [] (w.onController (·.setCurrentKey key))
  execute : ∀ {ps w} i, I ps [] w → I ps [] (w.onController (·.execute i))
  receive : ∀ {ps w}, I ps [] w → I ps [] (w.onController Controller.receive)
  shut : ∀ {ps w}, I ps [] w → I ps [] (w.onController Controller.shut)
  pace : ∀ {ps w} p, I ps [] w → I ps [] (w.onController fun c => { c with pace := p })
  tick : ∀ {ps w} ms, I ps [] w → I ps [] { w with clock := w.clock + ms }
  ready : ∀ {ps w} r, I ps [] w → I ps [] (w.newSlot (.done r)).2
  /-- A derived future waits in the continuation that settles it. -/
  derive : ∀ {ps w} (d : Derive), I ps [] w →
    I ps [d.cont w.slots.size] (w.newSlot (.pending [])).2
  log : ∀ {ps w} f tag keyed, I ps [] w → I ps [.log f tag keyed] w
  /-- A combination's future waits for one continuation per input, about to be registered. -/
  combine : ∀ {ps w} (slots : List Nat), slots ≠ [] → I ps [] w →
    I ps (slots.zipIdx.map fun x => .gather w.gathers.size x.2)
      { (w.newSlot (.pending [])).2 with
        gathers := w.gathers.push ⟨slots.map fun _ => none, slots.length, w.slots.size⟩ }
  /-- A new future whose promise the thread keeps. -/
  promise : ∀ {ps w}, I ps [] w → I (w.slots.size :: ps) [] (w.newSlot (.pending [])).2
  /-- A promise the thread holds may resolve its future, and is used up. -/
  resolve : ∀ {ps w i}, I ps [] w → i ∈ ps → I (ps.erase i) [] w ∧ S (ps.erase i) [] w i

namespace CallInvariant

variable {I : List Nat → List Cont → World → Prop}
  {S : List Nat → List Cont → World → Nat → Prop}

theorem keeps_shutDown (hI : CallInvariant I S) (ps : List Nat) (n : Nat) :
    Spec (I ps []) (shutDown n) fun _ => I ps [] := by
  unfold shutDown
  refine Spec.bind (Spec.get (Q := fun a w => I ps [] w ∧ a = w) fun w hw => ⟨hw, rfl⟩)
    fun a => ?_
  split
  · split
    · exact Spec.pure fun w hw => hw.1
    · refine Spec.bind (Spec.pre (fun w hw => hw.1)
        ((hI.thread ps).keeps_settleAll [] n)) fun _ => ?_
      exact Spec.modify fun w hw => hI.shut hw
  · exact Spec.pure fun w hw => hw.1

theorem keeps_combine (hI : CallInvariant I S) (ps : List Nat) (n : Nat) (slots : List Nat) :
    Spec (I ps []) (OrderedState.combine n slots) fun _ => I ps [] := by
  unfold OrderedState.combine
  split
  · exact Spec.modifyGet fun w hw => hI.ready _ hw
  · next hne =>
    -- the new future and its group come first, with every continuation of the group still to
    -- be registered on the stack; the loop registers them one by one
    refine Spec.bind (Spec.modifyGet (Q := fun t w' => ∃ w, I ps [] w ∧ t = w.slots.size ∧
      w' = (w.newSlot (.pending [])).2) fun w hw => ⟨w, hw, rfl, rfl⟩) fun t => ?_
    refine Spec.bind (Spec.modifyGet
      (Q := fun g w' => I ps (slots.zipIdx.map fun x => .gather g x.2) w') ?_) fun g => ?_
    · rintro _ ⟨w, hw, rfl, rfl⟩
      exact hI.combine slots hne hw
    refine Spec.bind (Q := fun _ => I ps []) ?_ fun _ => Spec.pure fun _ hw => hw
    apply Spec.forM (I := fun xs : List (Nat × Nat) => I ps (xs.map fun x => .gather g x.2))
    rintro ⟨src, index⟩ xs
    exact ((hI.thread ps).keeps n).attach src _ _

/-- Every call of the thread keeps `I`. -/
theorem keeps_call (hI : CallInvariant I S) (ps : List Nat) (n : Nat) (c : Call) :
    Spec (I ps []) (c.run n) fun _ => I ps [] := by
  have hk := (hI.thread ps).keeps n
  have done : Spec (I ps []) (Pure.pure () : Run Unit) fun _ => I ps [] :=
    Spec.pure fun _ hw => hw
  cases c with
  | setKey key => exact Spec.modify fun w hw => hI.setKey key hw
  | invoke h name args => exact Spec.bind (hk.invoke h name args []) fun _ => done
  | request h op => exact Spec.bind (hk.request h op []) fun _ => done
  | room => exact Spec.bind (hk.makeRoom []) fun _ => Spec.pure fun _ hw => hw.1
  | trigger => exact Spec.modify fun w hw => (hI.thread ps).flush hw
  | execute i => exact Spec.modify fun w hw => hI.execute i hw
  | receive => exact Spec.modify fun w hw => hI.receive hw
  | poll => exact Spec.bind ((hI.thread ps).keeps_poll n []) fun _ => done
  | turn => exact Spec.bind (hk.pass []) fun _ => done
  | wait i => exact Spec.bind (hk.waitFor i []) fun _ => done
  | waitWithin i ms => exact Spec.bind ((hI.thread ps).keeps_waitWithin i ms [] n) fun _ => done
  | drain => exact (hI.thread ps).keeps_settleAll [] n
  | close => exact hI.keeps_shutDown ps n
  | ready r => exact Spec.bind (Spec.modifyGet (Q := fun _ => I ps []) fun w hw =>
      hI.ready r hw) fun _ => done
  | derive src d =>
    intro w hw
    exact hk.attach src (d.cont w.slots.size) [] _ (hI.derive d hw)
  | onComplete src f tag keyed =>
    exact Spec.pre (fun w hw => hI.log f tag keyed hw) (hk.attach src _ [])
  | combine slots => exact Spec.bind (hI.keeps_combine ps n slots) fun _ => done
  | tick ms => exact Spec.modify fun w hw => hI.tick ms hw

/-- Every step of the thread keeps `I`. -/
theorem keeps_next (hI : CallInvariant I S) {s s' : List Nat × World} (hs : Next s s')
    (h : I s.1 [] s.2) : I s'.1 [] s'.2 := by
  cases hs with
  | call c n => exact hI.keeps_call _ n c _ h
  | promise => exact hI.promise h
  | resolve n r hi =>
    obtain ⟨h', hS⟩ := hI.resolve h hi
    exact ((hI.thread _).keeps n).settle _ r [] _ ⟨h', hS⟩
  | pace p => exact hI.pace p h

/-- An invariant that the steps keep holds all along every run. -/
theorem run {s s' : List Nat × World} (hI : CallInvariant I S)
    (hs : Relation.ReflTransGen Next s s') (h : I s.1 [] s.2) : I s'.1 [] s'.2 := by
  induction hs with
  | refl => exact h
  | tail _ hnext ih => exact hI.keeps_next hnext ih

/-- An invariant that the steps keep and that holds of a fresh controller holds in every world
the thread reaches. -/
theorem reaches (hI : CallInvariant I S) {cfg : Config}
    (hstart : I [] [] { handler := .controller { config := cfg } }) {s : List Nat × World}
    (hs : Reaches cfg s) : I s.1 [] s.2 :=
  hI.run hs hstart

end CallInvariant

end OrderedState
