import OrderedState.Proofs.Delivery

/-!
# Chained futures

The thread chains a future on another by registering a continuation that settles a new future
from the first one's result (`Call.derive`). `then_apply` and `then_try_apply` map the result by
a function (`.map`). `then_compose` runs a program of operations on the value and follows the
future the program leaves (`.compose`, which registers `.forward`). `then_combine` is a
composition whose program maps a second future by the combining function applied to the first
value (`.pairWith`): a new future settled by a `.map` on the second one, which the combined
future follows. On a future that is done the continuation runs at once, while it is
registered; on a pending one it runs when the future is settled, after those registered before.

`World.outcome?` reads what a future has resolved to. The laws hold for every function, and for
sources that already have continuations: settling a future runs those registered before the
chained one first, and in a world the thread reaches none of them can settle the chained
future (`World.Unshared`), so what they do does not matter (`settle_through`).

* mapping: the source's error, or the function of its value; mapping twice resolves as mapping
  once by the composite;
* composing: the source's error, and the program never runs; otherwise the program runs once,
  and the composed future resolves to its error, to the value it ended with, or to what the
  future it left resolves to, once that one is settled (`World.Composes`);
* combining: the first source's error as soon as it fails; otherwise, once the second source is
  settled, its error or the combining function of the two values.

Main statement: `chained_futures_resolve`.
-/

namespace OrderedState

namespace World

variable {w u u' : World} {i j : Nat} {r : Outcome} {ks : List Cont} {s : Slot}

/-- What future `i` has resolved to: its result once it is done, nothing while it is pending. -/
def outcome? (w : World) (i : Nat) : Option Outcome :=
  match w.slot? i with
  | some (.done r) => some r
  | _ => none

theorem outcome?_of_done (h : w.slot? i = some (.done r)) : w.outcome? i = some r := by
  simp [outcome?, h]

theorem slot?_of_outcome? (h : w.outcome? i = some r) : w.slot? i = some (.done r) := by
  unfold outcome? at h
  split at h
  · next r' hr =>
    cases h
    exact hr
  · cases h

/-- A result a future has resolved to stays. -/
theorem Advances.outcome? (h : u.Advances u') (hi : u.outcome? i = some r) :
    u'.outcome? i = some r :=
  outcome?_of_done (h.done (slot?_of_outcome? hi))

@[simp] theorem slot?_setSlot (w : World) (i : Nat) (s : Slot) (j : Nat) :
    (w.setSlot i s).slot? j = if i = j ∧ i < w.slots.size then some s else w.slot? j := by
  by_cases hij : i = j
  · subst hij
    by_cases hi : i < w.slots.size
    · simp [slot?, setSlot, hi]
    · simp [slot?, setSlot, hi]
  · simp [slot?, setSlot, hij]

@[simp] theorem slot?_newSlot (w : World) (s : Slot) (j : Nat) :
    (w.newSlot s).2.slot? j = if j = w.slots.size then some s else w.slot? j := by
  by_cases hj : j = w.slots.size
  · subst hj
    rw [if_pos rfl]
    exact slot?_push_self rfl
  · simp only [hj, if_false, slot?, newSlot, Array.getElem?_push]

@[simp] theorem newSlot_fst (w : World) (s : Slot) : (w.newSlot s).1 = w.slots.size := rfl

@[simp] theorem slots_size_setSlot (w : World) (i : Nat) (s : Slot) :
    (w.setSlot i s).slots.size = w.slots.size := by
  simp [setSlot]

@[simp] theorem slots_size_newSlot (w : World) (s : Slot) :
    (w.newSlot s).2.slots.size = w.slots.size + 1 := by
  simp [newSlot]

theorem lt_size_of_slot? (h : w.slot? i = some s) : i < w.slots.size :=
  (Array.getElem?_eq_some_iff.mp h).1

/-- The world after the thread chains `d` on future `a` at budget `fuel`; the chained future
is the next slot, `w.slots.size`. -/
def chain (w : World) (fuel a : Nat) (d : Derive) : World := ((Call.run fuel (.derive a d)).run w).2

/-- The world after future `a` is settled with `r` at budget `fuel`. -/
def settled (w : World) (fuel a : Nat) (r : Outcome) : World := ((settle fuel a r).run w).2

end World

open World

/-! ## Registering and settling -/

section Runs

variable {w : World} {a t n : Nat} {r v : Outcome} {k : Cont} {ks : List Cont}

/-- Chaining on a pending future registers the continuation last; the new future waits. -/
theorem chain_pending (h : w.slot? a = some (.pending ks)) (d : Derive) :
    w.chain (n + 1) a d =
      (w.newSlot (.pending [])).2.setSlot a (.pending (ks ++ [d.cont w.slots.size])) := by
  have ha : (w.newSlot (.pending [])).2.slot? a = some (.pending ks) := by
    simp [Nat.ne_of_lt (lt_size_of_slot? h), h]
  rw [chain, Call.run, Run.run_bind, Run.run_modifyGet]
  exact congrArg Prod.snd (attach_pending ha)

/-- Chaining on a pending future leaves it waiting, with the chained continuation after those
it had, and the chained future waiting on nothing. -/
theorem chain_pending_waits (h : w.slot? a = some (.pending ks)) (d : Derive) :
    (w.chain (n + 1) a d).slot? a = some (.pending (ks ++ [d.cont w.slots.size])) ∧
      (w.chain (n + 1) a d).slot? w.slots.size = some (.pending []) := by
  have hlt := lt_size_of_slot? h
  rw [chain_pending h]
  exact ⟨by simp [Nat.lt_succ_of_lt hlt], by simp [Nat.ne_of_lt hlt]⟩

/-- Chaining on a future that is done runs the continuation at once, while it is registered. -/
theorem chain_done (h : w.slot? a = some (.done r)) (d : Derive) :
    w.chain (n + 1) a d = ((resume n (d.cont w.slots.size) r).run (w.newSlot (.pending [])).2).2 := by
  have ha : (w.newSlot (.pending [])).2.slot? a = some (.done r) := by
    simp [Nat.ne_of_lt (lt_size_of_slot? h), h]
  rw [chain, Call.run, Run.run_bind, Run.run_modifyGet]
  exact congrArg Prod.snd (attach_done ha)

/-- Settling a future that nothing waits on only marks it done. -/
theorem settle_quiet (h : w.slot? t = some (.pending [])) :
    (settle (n + 1) t v).run w = ((), w.setSlot t (.done v)) := by
  rw [settle_pending h]
  rfl

theorem settled_quiet (h : w.slot? t = some (.pending [])) :
    w.settled (n + 1) t v = w.setSlot t (.done v) := by
  rw [settled, settle_quiet h]

theorem attach_missing (h : w.slot? a = none) (k : Cont) : (attach (n + 1) a k).run w = ((), w) := by
  rw [attach, Run.run_bind, Run.run_get]
  dsimp only
  rw [h]
  rfl

/-- Settling a pending future leaves it done with the result, whatever its continuations do. -/
theorem outcome?_settle (h : w.slot? t = some (.pending ks)) :
    (((settle (n + 1) t v).run w).2).outcome? t = some v := by
  rw [settle_pending h]
  exact outcome?_of_done ((resumeAll_advances ks v).done (by simp [lt_size_of_slot? h]))

end Runs

/-! ## Settling through a continuation -/

/-- Continuation `k` settles future `t` with `g` of the result it runs on, and does nothing
else. -/
def Cont.Settles (k : Cont) (t : Nat) (g : Outcome → Outcome) : Prop :=
  k.target = some t ∧ ∀ n r, resume (n + 1) k r = settle n t (g r)

theorem Cont.settles_map (f : Json → Outcome) (t : Nat) :
    (Cont.map f t).Settles t fun r => r.bind f :=
  ⟨rfl, fun _ _ => by rw [resume]⟩

theorem Cont.settles_forward (t : Nat) : (Cont.forward t).Settles t id :=
  ⟨rfl, fun _ _ => by rw [resume]; rfl⟩

namespace World

section Through

variable {v : World} {ps : List Nat} {D pre post pre' post' : List Cont} {k k₁ k₂ : Cont}
  {s t t₁ t₂ n : Nat} {rs : Outcome} {g g₁ g₂ : Outcome → Outcome}

/-- Settling a future runs the continuations registered before `k`, then `k`: a property that
`k`'s run gives, and that advancing keeps, holds of the settled world. In a world the thread
reaches, `k` is still on the stack when its turn comes, whatever those before it did. -/
theorem settle_through {P : World → Prop} (hP : ∀ u u', u.Advances u' → P u → P u')
    (h : Unshared ps D v) (hs : v.Free ps D s)
    (hks : v.slot? s = some (.pending (pre ++ k :: post)))
    (hk : ∀ u, Unshared ps (k :: post ++ D) u → (v.setSlot s (.done rs)).Advances u →
      P ((resume (n + 2) k rs).run u).2) :
    P (v.settled (n + 3) s rs) := by
  have hk₂ := (Unshared.threadInvariant ps).keeps (n + 2)
  have h₀ : Unshared ps (pre ++ (k :: post ++ D)) (v.setSlot s (.done rs)) := by
    simpa only [List.append_assoc, List.cons_append] using h.settle hs hks rs
  have hu : Unshared ps (k :: post ++ D)
      ((pre.forM fun k' => resume (n + 2) k' rs).run (v.setSlot s (.done rs))).2 :=
    hk₂.resumeAll pre rs (k :: post ++ D) _ h₀
  rw [settled, settle_pending hks, Run.run_forM_append, Run.run_forM_cons]
  exact hP _ _ (resumeAll_advances post rs) (hk _ hu (resumeAll_advances pre rs))

/-- Settling a future that a continuation settling `t` waits on settles `t` as that
continuation says, whatever the continuations registered before it do. -/
theorem settled_settles (h : Unshared ps D v) (hs : v.Free ps D s)
    (hks : v.slot? s = some (.pending (pre ++ k :: post))) (hk : k.Settles t g) :
    (v.settled (n + 3) s rs).outcome? t = some (g rs) :=
  settle_through (P := fun u => u.outcome? t = some (g rs)) (fun _ _ ha ho => ha.outcome? ho)
    h hs hks fun _ hu _ => by
      obtain ⟨_, ht⟩ := (hu.free_target hk.1).1
      rw [hk.2]
      exact outcome?_settle ht

/-- Settling a future that a continuation settling `t₁` waits on, while one settling `t₂` waits
on `t₁`, settles `t₂` as the two continuations say one after the other. -/
theorem settled_settles_twice (h : Unshared ps D v) (hs : v.Free ps D s)
    (hks : v.slot? s = some (.pending (pre ++ k₁ :: post))) (hk₁ : k₁.Settles t₁ g₁)
    (hks₁ : v.slot? t₁ = some (.pending (pre' ++ k₂ :: post'))) (hk₂ : k₂.Settles t₂ g₂) :
    (v.settled (n + 5) s rs).outcome? t₂ = some (g₂ (g₁ rs)) := by
  refine settle_through (n := n + 2) (P := fun u => u.outcome? t₂ = some (g₂ (g₁ rs)))
    (fun _ _ ha ho => ha.outcome? ho) h hs hks fun u hu ha => ?_
  -- when `k₁` runs, `t₁` is pending: it is not `s`, and it has the continuations it had and
  -- maybe more after them
  obtain ⟨_, ht₁⟩ := (hu.free_target hk₁.1).1
  have hne : s ≠ t₁ := by
    rintro rfl
    have hd : (v.setSlot s (.done rs)).slot? s = some (.done rs) := by
      simp [lt_size_of_slot? hks]
    rw [ha.done hd] at ht₁
    cases ht₁
  have hv₁ : (v.setSlot s (.done rs)).slot? t₁ = some (.pending (pre' ++ k₂ :: post')) := by
    simp [hne, hks₁]
  rcases ha.pending hv₁ with ⟨more, hmore⟩ | ⟨_, hdone⟩
  · have hks' : u.slot? t₁ = some (.pending (pre' ++ k₂ :: (post' ++ more))) := by
      simpa using hmore
    rw [hk₁.2]
    exact settled_settles hu.drop (hu.free_target hk₁.1) hks' hk₂
  · rw [ht₁] at hdone
    cases hdone

end Through

end World

/-! ## Mapping -/

section Map

variable {w v : World} {ps : List Nat} {D pre post pre' post' : List Cont} {a s t t₁ t₂ n : Nat}
  {r : Outcome}

/-- Chaining a map on a future that is done settles the new future at once with the mapped
result. -/
theorem chain_map_done (h : w.slot? a = some (.done r)) (f : Json → Outcome) :
    w.chain (n + 3) a (.map f) =
      (w.newSlot (.pending [])).2.setSlot w.slots.size (.done (r.bind f)) := by
  rw [chain_done h, Derive.cont, resume]
  exact settled_quiet (by simp)

/-- Mapping a result twice is mapping it once by the composite. -/
theorem bind_bind (r : Outcome) (f g : Json → Outcome) :
    (r.bind f).bind g = r.bind fun x => (f x).bind g := by
  cases r <;> rfl

/-- Mapping twice, with the source done before the first map is chained. -/
theorem map_map_of_done (h : w.slot? a = some (.done r)) (f g : Json → Outcome) :
    ((w.chain (n + 3) a (.map f)).chain (n + 3) w.slots.size (.map g)).outcome?
      (w.slots.size + 1) = some (r.bind fun x => (f x).bind g) := by
  rw [chain_map_done h, chain_map_done (r := r.bind f) (by simp)]
  simp [outcome?, bind_bind]

/-- Settling a future that a map waits on settles the mapped future with the mapped result. -/
theorem settled_map (h : Unshared ps D v) (hs : v.Free ps D s) {f : Json → Outcome}
    (hks : v.slot? s = some (.pending (pre ++ .map f t :: post))) (rs : Outcome) :
    (v.settled (n + 3) s rs).outcome? t = some (rs.bind f) :=
  settled_settles h hs hks (Cont.settles_map f t)

/-- Settling a future that a map waits on, while a second map waits on the first mapped future,
settles the second mapped future with the result mapped by the composite. -/
theorem settled_map_map (h : Unshared ps D v) (hs : v.Free ps D s) {f g : Json → Outcome}
    (hks : v.slot? s = some (.pending (pre ++ .map f t₁ :: post)))
    (hks₁ : v.slot? t₁ = some (.pending (pre' ++ .map g t₂ :: post'))) (rs : Outcome) :
    (v.settled (n + 5) s rs).outcome? t₂ = some (rs.bind fun x => (f x).bind g) := by
  rw [settled_settles_twice h hs hks (Cont.settles_map f t₁) hks₁ (Cont.settles_map g t₂),
    bind_bind]

end Map

/-! ## Combining -/

section Combine

variable {w u v : World} {ps : List Nat} {D pre post pre' post' : List Cont}
  {a b o s t t' n : Nat} {ks : List Cont} {f : Json → Json → Json}

/-- Mapping by a function that cannot fail. -/
theorem bind_ok (r : Outcome) (h : Json → Json) : (r.bind fun y => .ok (h y)) = r.map h := by
  cases r <;> rfl

/-- A combining continuation run on an error settles its future with it at once. -/
theorem resume_pair_error (ht : u.slot? t = some (.pending ks)) (e : StateError) :
    (((resume (n + 2) (.pairWith o f t) (.error e)).run u).2).outcome? t = some (.error e) := by
  rw [resume]
  exact outcome?_settle ht

/-- A combining continuation run on a value, with the second future done: the intermediate
future is settled at once, and the combined future follows it. -/
theorem resume_pair_done {rb : Outcome} (ht : u.slot? t = some (.pending ks))
    (ho : u.slot? o = some (.done rb)) (x : Json) :
    (((resume (n + 4) (.pairWith o f t) (.ok x)).run u).2).outcome? t = some (rb.map (f x)) := by
  have hne : t ≠ u.slots.size := Nat.ne_of_lt (lt_size_of_slot? ht)
  have ho₁ : (u.newSlot (.pending [])).2.slot? o = some (.done rb) := by
    simp [Nat.ne_of_lt (lt_size_of_slot? ho), ho]
  have ht₁ : (u.newSlot (.pending [])).2.slot? u.slots.size = some (.pending []) := by simp
  -- the intermediate future is settled by the map, then followed by the combined one
  have ht₂ : ((u.newSlot (.pending [])).2.setSlot u.slots.size
      (.done (rb.bind fun y => .ok (f x y)))).slot? t = some (.pending ks) := by
    simp [hne, Ne.symm hne, ht]
  rw [resume, Run.run_bind, Run.run_modifyGet, newSlot_fst, Run.run_bind, attach_done ho₁, resume,
    settle_quiet ht₁, attach_done (slot?_setSlot_self ht₁ _), resume, outcome?_settle ht₂, bind_ok]

/-- A combining continuation run on a value, with the second future pending: the intermediate
future waits on it behind the continuations it had, and the combined future on the
intermediate one. -/
theorem resume_pair_pending (ho : u.slot? o = some (.pending ks)) (x : Json) :
    ((resume (n + 2) (.pairWith o f t) (.ok x)).run u).2 =
      ((u.newSlot (.pending [])).2.setSlot o
        (.pending (ks ++ [.map (fun y => .ok (f x y)) u.slots.size]))).setSlot u.slots.size
        (.pending [.forward t]) := by
  have hne : o ≠ u.slots.size := Nat.ne_of_lt (lt_size_of_slot? ho)
  have ho₁ : (u.newSlot (.pending [])).2.slot? o = some (.pending ks) := by simp [hne, ho]
  have ht₁ : ((u.newSlot (.pending [])).2.setSlot o
      (.pending (ks ++ [.map (fun y => .ok (f x y)) u.slots.size]))).slot? u.slots.size =
      some (.pending []) := by
    simp [hne]
  rw [resume, Run.run_bind, Run.run_modifyGet, newSlot_fst, Run.run_bind, attach_pending ho₁,
    attach_pending ht₁]
  rfl

/-- Settling the first future of a combination with an error settles the combined future with
it, whatever the continuations registered before do. -/
theorem settled_pair_error (h : Unshared ps D v) (hs : v.Free ps D s)
    (hks : v.slot? s = some (.pending (pre ++ .pairWith o f t :: post))) (e : StateError) :
    (v.settled (n + 3) s (.error e)).outcome? t = some (.error e) :=
  settle_through (P := fun u => u.outcome? t = some (.error e)) (fun _ _ ha ho => ha.outcome? ho)
    h hs hks fun _ hu _ => by
      obtain ⟨_, ht⟩ := (hu.free_target rfl).1
      exact resume_pair_error ht e

/-- Settling the first future of a combination with a value, the second being done, settles
the combined future with the combination of the two. -/
theorem settled_pair_done {rb : Outcome} (h : Unshared ps D v) (hs : v.Free ps D s)
    (hks : v.slot? s = some (.pending (pre ++ .pairWith o f t :: post)))
    (ho : v.slot? o = some (.done rb)) (x : Json) :
    (v.settled (n + 5) s (.ok x)).outcome? t = some (rb.map (f x)) := by
  have hne : s ≠ o := by
    rintro rfl
    rw [hks] at ho
    cases ho
  refine settle_through (n := n + 2) (P := fun u => u.outcome? t = some (rb.map (f x)))
    (fun _ _ ha ho => ha.outcome? ho) h hs hks fun _ hu ha => ?_
  obtain ⟨_, ht⟩ := (hu.free_target rfl).1
  exact resume_pair_done ht (ha.done (by simp [hne, ho])) x

/-- Settling the second future of a combination whose first was a value, once the intermediate
future waits on it and the combined future on the intermediate one: the combined future gets
the second result combined with the first value. -/
theorem settled_pair_second {x : Json} (h : Unshared ps D v) (hs : v.Free ps D o)
    (hko : v.slot? o = some (.pending (pre ++ .map (fun y => .ok (f x y)) t' :: post)))
    (hkt : v.slot? t' = some (.pending (pre' ++ .forward t :: post'))) (rb : Outcome) :
    (v.settled (n + 5) o rb).outcome? t = some (rb.map (f x)) := by
  rw [settled_settles_twice h hs hko (Cont.settles_map _ t') hkt (Cont.settles_forward t), id,
    bind_ok]

/-- Combining on a future that failed settles the combined future with the error at once. -/
theorem chain_pair_error {e : StateError} (ha : w.slot? a = some (.done (.error e))) (b : Nat)
    (f : Json → Json → Json) :
    w.chain (n + 3) a (.pair b f) =
      (w.newSlot (.pending [])).2.setSlot w.slots.size (.done (.error e)) := by
  rw [chain_done ha, Derive.cont, resume]
  exact settled_quiet (by simp)

/-- Combining two futures that are done settles the combined future at once. -/
theorem chain_pair_done {x : Json} {rb : Outcome} (ha : w.slot? a = some (.done (.ok x)))
    (hb : w.slot? b = some (.done rb)) (f : Json → Json → Json) :
    (w.chain (n + 5) a (.pair b f)).outcome? w.slots.size = some (rb.map (f x)) := by
  have ht : (w.newSlot (.pending [])).2.slot? w.slots.size = some (.pending []) := by simp
  rw [chain_done ha, Derive.cont]
  exact resume_pair_done ht (by simp [Nat.ne_of_lt (lt_size_of_slot? hb), hb]) x

end Combine

/-! ## Composing -/

/-- What a composed future resolves to once its program has run on the source's value: the
program's error, the value it ended with, or what the future it left has resolved to. -/
def composeOutcome : Except StateError (Json × Option Nat) × World → Option Outcome
  | (.error e, _) => some (.error e)
  | (.ok (y, none), _) => some (.ok y)
  | (.ok (_, some s), u) => u.outcome? s

namespace World

/-- Future `t` of a composition whose program ran to `res`: resolved as `composeOutcome` gives,
and, while the future the program left is pending, waiting on it through a forwarding
continuation registered last. -/
def Composes (w : World) (t : Nat) (res : Except StateError (Json × Option Nat) × World) :
    Prop :=
  w.outcome? t = composeOutcome res ∧
    ∀ y s ks, res.1 = .ok (y, some s) → res.2.slot? s = some (.pending ks) →
      w.slot? s = some (.pending (ks ++ [.forward t]))

section Compose

variable {w u v : World} {ps : List Nat} {D : List Cont} {a s t n : Nat} {p : List Inner}
  {pre post : List Cont}

/-- A composed continuation run on a value settles its future as `composeOutcome` gives from
one run of the program. The program cannot settle the future itself: only the continuation
holds it. -/
theorem resume_compose_ok (h : Unshared ps (.compose p t :: D) u) (x : Json) :
    (((resume (n + 4) (.compose p t) (.ok x)).run u).2).outcome? t =
      composeOutcome ((perform (n + 3) p x none).run u) := by
  have h₁ : Unshared ps (.compose p t :: D) ((perform (n + 3) p x none).run u).2 :=
    ((Unshared.threadInvariant ps).keeps (n + 3)).perform p x none _ u h
  rw [resume, Run.run_bind]
  generalize (perform (n + 3) p x none).run u = res at h₁ ⊢
  obtain ⟨o, u₁⟩ := res
  -- the composed future is still pending once the program has run
  obtain ⟨ks, ht⟩ := (h₁.free_target rfl).1
  rcases o with e | ⟨y, _ | s⟩
  · exact outcome?_settle ht
  · exact outcome?_settle ht
  · -- the program left future `s`: the composed future follows it
    show (((attach (n + 3) s (.forward t)).run u₁).2).outcome? t = u₁.outcome? s
    cases hs : u₁.slot? s with
    | none =>
      rw [attach_missing hs]
      simp [outcome?, hs, ht]
    | some sl =>
      cases sl with
      | pending ks' =>
        rw [attach_pending hs]
        by_cases hst : s = t
        · subst hst
          simp [outcome?, hs, lt_size_of_slot? hs]
        · simp [outcome?, hst, hs, ht]
      | done rs =>
        rw [attach_done hs, resume, outcome?_settle ht, outcome?_of_done hs]

/-- When the program leaves a pending future, the composed future waits on it: the forwarding
continuation is registered last. -/
theorem resume_compose_follows {x y : Json} {ks : List Cont}
    (hres : ((perform (n + 3) p x none).run u).1 = .ok (y, some s))
    (hks : ((perform (n + 3) p x none).run u).2.slot? s = some (.pending ks)) :
    (((resume (n + 4) (.compose p t) (.ok x)).run u).2).slot? s =
      some (.pending (ks ++ [.forward t])) := by
  rw [resume, Run.run_bind, hres]
  show (((attach (n + 3) s (.forward t)).run _).2).slot? s = _
  rw [attach_pending hks]
  simp [lt_size_of_slot? hks]

/-- A composed continuation run on a value runs the program once, and its future is then as
`Composes` says. -/
theorem resume_composes (h : Unshared ps (.compose p t :: D) u) (x : Json) :
    (((resume (n + 4) (.compose p t) (.ok x)).run u).2).Composes t
      ((perform (n + 3) p x none).run u) :=
  ⟨resume_compose_ok h x, fun _ _ _ hres hks => resume_compose_follows hres hks⟩

/-- Settling a future that a composition waits on with an error settles the composed future
with it: the program never runs. -/
theorem settled_compose_error (h : Unshared ps D v) (hs : v.Free ps D s)
    (hks : v.slot? s = some (.pending (pre ++ .compose p t :: post))) (e : StateError) :
    (v.settled (n + 3) s (.error e)).outcome? t = some (.error e) :=
  settle_through (P := fun u => u.outcome? t = some (.error e)) (fun _ _ ha ho => ha.outcome? ho)
    h hs hks fun _ hu _ => by
      obtain ⟨_, ht⟩ := (hu.free_target rfl).1
      rw [resume]
      exact outcome?_settle ht

/-- Composing on a future that failed settles the composed future with the error at once: the
program never runs, and nothing else changes. -/
theorem chain_compose_error {e : StateError} (ha : w.slot? a = some (.done (.error e)))
    (p : List Inner) :
    w.chain (n + 3) a (.compose p) =
      (w.newSlot (.pending [])).2.setSlot w.slots.size (.done (.error e)) := by
  rw [chain_done ha, Derive.cont, resume]
  exact settled_quiet (by simp)

/-- Composing on a future done with a value runs the program at once: the composed future
resolves as `composeOutcome` gives, and waits on the future the program left while that one is
pending. -/
theorem chain_compose_ok {x : Json} (h : Unshared ps [] w) (ha : w.slot? a = some (.done (.ok x)))
    (p : List Inner) :
    (w.chain (n + 5) a (.compose p)).Composes w.slots.size
      ((perform (n + 3) p x none).run (w.newSlot (.pending [])).2) := by
  rw [chain_done ha, Derive.cont]
  exact resume_composes (Unshared.callInvariant.derive (.compose p) h) x

end Compose

end World

/-! ## Chained futures -/

/-- Chained futures resolve to what their sources give, for every function, whichever sources
are done when the chaining is made, and whatever else already waits on them.

* Chaining on a pending future registers the continuation after those it had; the chained
  future waits.
* Mapping resolves to the source's error or the function of its value, at once on a future that
  is done and when the source is settled on one that is pending. Mapping twice resolves as
  mapping once by the composite.
* Composing on a failed source settles the composed future with the error and changes nothing
  else: the program never runs. On a value the program runs once and the composed future is as
  `World.Composes` says: resolved to the program's error, its last value, or what the future it
  left has resolved to, and waiting on that future while it is pending. Settling a future that a
  forwarding continuation waits on settles the forwarded future with the same result.
* Combining resolves to the first source's error as soon as it fails. On its value, when the
  second source is done, to the second result combined with it; when the second source is
  pending, the intermediate future waits on it and the combined future on the intermediate
  one, and once the second source is settled the combined future has its result combined with
  the first value. -/
theorem chained_futures_resolve (n : Nat) :
    (∀ (w : World) a ks (d : Derive), w.slot? a = some (.pending ks) →
      (w.chain (n + 1) a d).slot? a = some (.pending (ks ++ [d.cont w.slots.size])) ∧
        (w.chain (n + 1) a d).slot? w.slots.size = some (.pending [])) ∧
    (∀ (w : World) a r (f : Json → Outcome), w.slot? a = some (.done r) →
      w.chain (n + 3) a (.map f) =
        (w.newSlot (.pending [])).2.setSlot w.slots.size (.done (r.bind f))) ∧
    (∀ ps D (v : World) s pre post (f : Json → Outcome) t rs, Unshared ps D v →
      v.Free ps D s → v.slot? s = some (.pending (pre ++ .map f t :: post)) →
      (v.settled (n + 3) s rs).outcome? t = some (rs.bind f)) ∧
    (∀ (w : World) a r (f g : Json → Outcome), w.slot? a = some (.done r) →
      ((w.chain (n + 3) a (.map f)).chain (n + 3) w.slots.size (.map g)).outcome?
        (w.slots.size + 1) = some (r.bind fun x => (f x).bind g)) ∧
    (∀ ps D (v : World) s pre post pre' post' (f g : Json → Outcome) t₁ t₂ rs,
      Unshared ps D v → v.Free ps D s → v.slot? s = some (.pending (pre ++ .map f t₁ :: post)) →
      v.slot? t₁ = some (.pending (pre' ++ .map g t₂ :: post')) →
      (v.settled (n + 5) s rs).outcome? t₂ = some (rs.bind fun x => (f x).bind g)) ∧
    (∀ (w : World) a e p, w.slot? a = some (.done (.error e)) →
      w.chain (n + 3) a (.compose p) =
        (w.newSlot (.pending [])).2.setSlot w.slots.size (.done (.error e))) ∧
    (∀ ps D (v : World) s pre post p t e, Unshared ps D v → v.Free ps D s →
      v.slot? s = some (.pending (pre ++ .compose p t :: post)) →
      (v.settled (n + 3) s (.error e)).outcome? t = some (.error e)) ∧
    (∀ cfg ps (w : World) a x p, Reaches cfg (ps, w) → w.slot? a = some (.done (.ok x)) →
      (w.chain (n + 5) a (.compose p)).Composes w.slots.size
        ((perform (n + 3) p x none).run (w.newSlot (.pending [])).2)) ∧
    (∀ ps D (u : World) p t x, Unshared ps (.compose p t :: D) u →
      (((resume (n + 4) (.compose p t) (.ok x)).run u).2).Composes t
        ((perform (n + 3) p x none).run u)) ∧
    (∀ ps D (v : World) s pre post t rs, Unshared ps D v → v.Free ps D s →
      v.slot? s = some (.pending (pre ++ .forward t :: post)) →
      (v.settled (n + 3) s rs).outcome? t = some rs) ∧
    (∀ (w : World) a e b (f : Json → Json → Json), w.slot? a = some (.done (.error e)) →
      w.chain (n + 3) a (.pair b f) =
        (w.newSlot (.pending [])).2.setSlot w.slots.size (.done (.error e))) ∧
    (∀ (w : World) a b x rb (f : Json → Json → Json), w.slot? a = some (.done (.ok x)) →
      w.slot? b = some (.done rb) →
      (w.chain (n + 5) a (.pair b f)).outcome? w.slots.size = some (rb.map (f x))) ∧
    (∀ ps D (v : World) s pre post b (f : Json → Json → Json) t e, Unshared ps D v →
      v.Free ps D s → v.slot? s = some (.pending (pre ++ .pairWith b f t :: post)) →
      (v.settled (n + 3) s (.error e)).outcome? t = some (.error e)) ∧
    (∀ ps D (v : World) s pre post b (f : Json → Json → Json) t x rb, Unshared ps D v →
      v.Free ps D s → v.slot? s = some (.pending (pre ++ .pairWith b f t :: post)) →
      v.slot? b = some (.done rb) →
      (v.settled (n + 5) s (.ok x)).outcome? t = some (rb.map (f x))) ∧
    (∀ (u : World) b ks (f : Json → Json → Json) t x, u.slot? b = some (.pending ks) →
      ((resume (n + 2) (.pairWith b f t) (.ok x)).run u).2 =
        ((u.newSlot (.pending [])).2.setSlot b
          (.pending (ks ++ [.map (fun y => .ok (f x y)) u.slots.size]))).setSlot u.slots.size
          (.pending [.forward t])) ∧
    (∀ ps D (v : World) b pre post pre' post' (f : Json → Json → Json) x t' t rb,
      Unshared ps D v → v.Free ps D b →
      v.slot? b = some (.pending (pre ++ .map (fun y => .ok (f x y)) t' :: post)) →
      v.slot? t' = some (.pending (pre' ++ .forward t :: post')) →
      (v.settled (n + 5) b rb).outcome? t = some (rb.map (f x))) :=
  ⟨fun _ _ _ d h => chain_pending_waits h d,
    fun _ _ _ f h => chain_map_done h f,
    fun _ _ _ _ _ _ _ _ rs h hs hks => settled_map h hs hks rs,
    fun _ _ _ f g h => map_map_of_done h f g,
    fun _ _ _ _ _ _ _ _ _ _ _ _ rs h hs hks hks₁ => settled_map_map h hs hks hks₁ rs,
    fun _ _ _ p h => chain_compose_error h p,
    fun _ _ _ _ _ _ _ _ e h hs hks => settled_compose_error h hs hks e,
    fun _ _ _ _ _ p hw h => chain_compose_ok hw.unshared h p,
    fun _ _ _ _ _ x h => resume_composes h x,
    fun _ _ _ _ _ _ _ _ h hs hks => settled_settles h hs hks (Cont.settles_forward _),
    fun _ _ _ b f h => chain_pair_error h b f,
    fun _ _ _ _ _ f ha hb => chain_pair_done ha hb f,
    fun _ _ _ _ _ _ _ _ _ e h hs hks => settled_pair_error h hs hks e,
    fun _ _ _ _ _ _ _ _ _ x _ h hs hks ho => settled_pair_done h hs hks ho x,
    fun _ _ _ _ _ x ho => resume_pair_pending ho x,
    fun _ _ _ _ _ _ _ _ _ _ _ _ rb h hs hko hkt => settled_pair_second h hs hko hkt rb⟩

/-- On a fresh controller the thread makes two promises, combines the first with the second
into a pair, and resolves the first with `true`: the intermediate future now waits on the
second promise. Resolving that one with `false` settles the combined future with the pair. -/
theorem promises_combined_resolve :
    let w := ((((initial {}).2.newSlot (.pending [])).2.newSlot (.pending [])).2.chain 1 0
      (.pair 1 fun x y => .array [x, y])).settled 4 0 (.ok (.bool true))
    (w.settled 5 1 (.ok (.bool false))).outcome? 2 =
      some (.ok (.array [.bool true, .bool false])) := by
  intro w
  have hr : Reaches {} ([1], w) :=
    (((Relation.ReflTransGen.single Next.promise).tail Next.promise).tail
      (Next.call (.derive 0 (.pair 1 fun x y => .array [x, y])) 1)).tail
      (Next.resolve 4 (.ok (.bool true)) (by decide : 0 ∈ [1, 0]))
  obtain ⟨hun, hfree⟩ := hr.unshared.resolve (List.mem_singleton_self 1)
  -- resolving the first promise ran the combining continuation: the intermediate future, slot 3,
  -- waits on the second promise, and the combined future, slot 2, on the intermediate one
  have hs : (initial {}).2.slots.size = 0 := rfl
  have h₀ : (((initial {}).2.newSlot (.pending [])).2.newSlot (.pending [])).2.slot? 0 =
      some (.pending []) := by
    simp [hs]
  have hc : (((initial {}).2.newSlot (.pending [])).2.newSlot (.pending [])).2.chain 1 0
      (.pair 1 fun x y => .array [x, y]) = _ := chain_pending h₀ _
  have hc₀ : ((((initial {}).2.newSlot (.pending [])).2.newSlot (.pending [])).2.chain 1 0
      (.pair 1 fun x y => .array [x, y])).slot? 0 =
      some (.pending [.pairWith 1 (fun x y => .array [x, y]) 2]) := by
    simp [hc, hs, Derive.cont]
  have hc₁ : (((((initial {}).2.newSlot (.pending [])).2.newSlot (.pending [])).2.chain 1 0
      (.pair 1 fun x y => .array [x, y])).setSlot 0 (.done (.ok (.bool true)))).slot? 1 =
      some (.pending []) := by
    simp [hc, hs]
  have hw : w.slot? 1 = some (.pending [.map (fun y => .ok (.array [.bool true, y])) 3]) ∧
      w.slot? 3 = some (.pending [.forward 2]) := by
    simp only [w, settled]
    rw [settle_pending hc₀, Run.run_forM_cons, Run.run_forM_nil,
      resume_pair_pending (n := 1) hc₁]
    simp [hc, hs]
  obtain ⟨-, -, -, -, -, -, -, -, -, -, -, -, -, -, -, hsecond⟩ := chained_futures_resolve 0
  exact hsecond _ _ w 1 [] [] [] [] (fun x y => .array [x, y]) (.bool true) 3 2 _ hun hfree hw.1
    hw.2

end OrderedState
