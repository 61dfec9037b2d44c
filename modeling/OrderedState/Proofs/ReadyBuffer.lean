import OrderedState.Proofs.Delivery

/-!
# The ready buffer

Requests the controller may send wait in the ready buffer, in the order they became ready, and
the buffer remembers when it last became non-empty. Three places add to it: a submission, the
next request of a pair released by a completion, and parked requests passed on when a record
completes. Only a flush takes from it, and it takes everything, as one batch.

`Controller.Grows c c'` says a change only appends to the buffer and keeps its time stamp
right (`Controller.Stamped`: a stamp exactly while the buffer holds requests). Every transition
of the controller grows the buffer or ends in a flush (`Machine.Step.buffer`), so the stamp is
right in every state of every run, and a request leaves the buffer only with all the others, in
order, in one non-empty batch.

Only a submission checks the buffer against the batch size. The other two places add to it
while completions are taken, and every turn that takes completions ends in a flush.
`World.Within` says the buffer is below the batch size. Every function of the interpreter but
`takeAll` keeps it (`Bounded`, by induction on the budget, as `ThreadInvariant.keeps`), since
`takeAll` runs only inside a turn, which flushes after it, and inside `poll`, which flushes when
it took something and otherwise changed nothing. So after every call of the processing thread
fewer requests than the batch size wait (`Reaches.within`), and a poll leaves no buffer that had
expired when it was called (`poll_unexpired`).

Main statement: `ready_buffer_flushes`.
-/

namespace OrderedState

namespace Controller

variable {τ : Type} {c c' c'' : Controller τ}

/-- The ready buffer carries the time it became non-empty exactly while it holds requests. -/
def Stamped (c : Controller τ) : Prop := c.activeSince.isSome ↔ c.active ≠ []

/-- A change that only appends to the ready buffer and keeps its stamp right. -/
structure Grows (c c' : Controller τ) : Prop where
  appends : c.active <+: c'.active
  stamped : c.Stamped → c'.Stamped

theorem grows_of_eq (ha : c'.active = c.active) (hs : c'.activeSince = c.activeSince) :
    Grows c c' :=
  ⟨ha ▸ List.prefix_refl _, fun h => by rwa [Stamped, ha, hs]⟩

theorem Grows.trans (h₁ : Grows c c') (h₂ : Grows c' c'') : Grows c c'' :=
  ⟨h₁.appends.trans h₂.appends, fun h => h₂.stamped (h₁.stamped h)⟩

theorem grows_pushActive (now : Nat) (r : Request) : Grows c (c.pushActive now r) := by
  refine ⟨List.prefix_append _ _, fun h => ?_⟩
  -- a push onto an empty buffer stamps it; a non-empty one keeps its stamp
  by_cases he : c.active = []
  · simp [Stamped, pushActive, he]
  · have hs : c.activeSince.isSome := h.mpr he
    simp [Stamped, pushActive, he, hs]

theorem grows_issue (now : Nat) (r : Request) : Grows c (c.issue now r) := by
  cases hq : c.queues.queues.get? (r.key, r.state) with
  | none =>
    rw [issue_of_idle hq]
    refine Grows.trans ?_ (grows_pushActive now r)
    exact grows_of_eq rfl rfl
  | some q =>
    rw [issue_of_busy hq]
    exact grows_of_eq rfl rfl

theorem grows_foldl_issue (now : Nat) (rs : List Request) :
    Grows c (rs.foldl (fun c r => c.issue now r) c) := by
  induction rs generalizing c with
  | nil => exact grows_of_eq rfl rfl
  | cons r rest ih => exact (grows_issue now r).trans ih

theorem grows_claim (now record : Nat) (r : Request) : Grows c (c.claim now record r) := by
  rw [claim_eq]
  refine Grows.trans ?_ (grows_foldl_issue now _)
  exact grows_of_eq rfl rfl

theorem grows_endCompletion (now record : Nat) (previous : Option RecordContext) :
    Grows c (c.endCompletion now record previous) := by
  rw [endCompletion_eq]
  refine Grows.trans ?_ (grows_foldl_issue now _)
  exact grows_of_eq rfl rfl

theorem grows_releasePair (now key : Nat) (state : String) :
    Grows c (c.releasePair now key state) := by
  unfold releasePair
  cases c.queues.release key state with
  | mk qs next =>
    cases next with
    | none => exact grows_of_eq rfl rfl
    | some r =>
      refine Grows.trans ?_ (grows_pushActive now r)
      exact grows_of_eq rfl rfl

theorem grows_beginCompletion {now : Nat} {comp : Completion} {f : InFlight τ}
    {previous : Option RecordContext} (h : c.beginCompletion now = some (comp, f, previous, c')) :
    Grows c c' := by
  obtain ⟨-, rest, -, -, -, -, rfl⟩ := beginCompletion_eq_some h
  have h₁ : Grows c { c with completed := rest, inFlight := c.inFlight.erase comp.id } :=
    grows_of_eq rfl rfl
  exact (h₁.trans (grows_releasePair now f.key f.state)).trans (grows_of_eq rfl rfl)

/-- A flush leaves the buffer empty and unstamped. -/
@[simp] theorem flush_active (c : Controller τ) : c.flush.active = [] := by
  obtain ⟨_, _, h⟩ := flush_eq_with c
  rw [h]

theorem stamped_flush (c : Controller τ) : c.flush.Stamped := by
  obtain ⟨_, _, h⟩ := flush_eq_with c
  simp [Stamped, h]

/-- A flush of a non-empty buffer hands it on whole, as one batch: to the executor while the
controller is open, and once it is closed straight to the completions, each with `Closed`. -/
theorem flush_hands (h : c.active ≠ []) :
    (c.closed = false ∧ c.flush.sent = c.sent ++ [c.active]) ∨
    (c.closed = true ∧
      c.flush.completed = c.completed ++ c.active.map fun r => ⟨r.id, .error .closed⟩) := by
  have hne : c.active.isEmpty = false := by simpa using h
  cases hc : c.closed
  · exact .inl ⟨rfl, by simp [flush_eq, dispatch, hne, hc]⟩
  · exact .inr ⟨rfl, by simp [flush_eq, dispatch, hne, hc]⟩

@[simp] theorem flush_activeSince (c : Controller τ) : c.flush.activeSince = none := by
  obtain ⟨_, _, h⟩ := flush_eq_with c
  rw [h]

@[simp] theorem collect_active (c : Controller τ) : c.collect.active = c.active := by
  obtain ⟨_, _, _, _, _, h⟩ := collect_eq_with c
  rw [h]

@[simp] theorem collect_activeSince (c : Controller τ) :
    c.collect.activeSince = c.activeSince := by
  obtain ⟨_, _, _, _, _, h⟩ := collect_eq_with c
  rw [h]

theorem grows_collect (c : Controller τ) : Grows c c.collect :=
  grows_of_eq (collect_active c) (collect_activeSince c)

theorem grows_execute (c : Controller τ) (i : Nat) : Grows c (c.execute i) := by
  obtain ⟨_, _, _, h⟩ := execute_eq_with c i
  exact grows_of_eq (by rw [h]) (by rw [h])

/-! ## Submitting -/

section Submit

variable {now : Nat} {state : String} {kind : StateKind} {rt : RequestType} {ns : Bytes}
  {payload : Payload} {promise : τ}

/-- A submission claims its request and then flushes the ready buffer, unless the buffer stays
below the batch size. -/
theorem submit_eq_flush_or_below (h : c.submit now state kind rt ns payload promise = .ok c') :
    ∃ ctx, c.current = some ctx ∧
      let c₁ := ({ c with nextId := c.nextId + 1,
                          inFlight := c.inFlight.set c.nextId
                            ⟨ctx.record, ctx.key, state, c.nextId, promise⟩ } : Controller τ).claim
                  now ctx.record (c.nextRequest ctx state kind rt ns payload)
      c' = c₁ ∧ c₁.bufferedCount < c₁.config.batchSize ∨ c' = c₁.flush := by
  unfold submit at h
  split at h
  · cases h
  · split at h
    · cases h
    · rename_i ctx hctx
      refine ⟨ctx, hctx, ?_⟩
      dsimp only at h
      split at h
      · exact .inr (by cases h; rfl)
      · rename_i hfull
        split at h
        · exact .inr (by cases h; rfl)
        · exact .inl ⟨by cases h; rfl, Nat.lt_of_not_le hfull⟩

/-- What a submission does to the ready buffer: it appends to it, keeping the batches, the
collected completions, the closed flag and the configuration, and then either stays below the
batch size or flushes. -/
theorem submit_buffer (hs : c.submit now state kind rt ns payload promise = .ok c') :
    ∃ c₁, Grows c c₁ ∧ c₁.sent = c.sent ∧ c₁.completed = c.completed ∧ c₁.closed = c.closed ∧
      c₁.config = c.config ∧ (c' = c₁ ∧ c₁.bufferedCount < c.config.batchSize ∨ c' = c₁.flush) := by
  obtain ⟨ctx, -, hc⟩ := submit_eq_flush_or_below hs
  set c₀ : Controller τ :=
    { c with nextId := c.nextId + 1,
             inFlight := c.inFlight.set c.nextId ⟨ctx.record, ctx.key, state, c.nextId, promise⟩ }
  have hg : Grows c (c₀.claim now ctx.record (c.nextRequest ctx state kind rt ns payload)) :=
    (grows_of_eq rfl rfl : Grows c c₀).trans (grows_claim now ctx.record _)
  obtain ⟨o, qs, a, s, heq⟩ := claim_eq_with c₀ now ctx.record
    (c.nextRequest ctx state kind rt ns payload)
  rw [heq] at hg hc
  exact ⟨_, hg, rfl, rfl, rfl, rfl, hc⟩

end Submit

end Controller

/-! ## Every transition of the controller -/

namespace Machine

open Controller

variable {τ : Type} {m m' : Machine τ}

/-- Every transition appends to the ready buffer, keeping its stamp right, and may then flush it.
One that flushes adds to the batches and completions it found. -/
theorem Step.buffer (hs : Step m m') :
    Grows m.ctl m'.ctl ∨ ∃ c₁, Grows m.ctl c₁ ∧ c₁.sent = m.ctl.sent ∧
      c₁.completed = m.ctl.completed ∧ c₁.closed = m.ctl.closed ∧ m'.ctl = c₁.flush := by
  cases hs with
  | internal h =>
    cases h with
    | flush => exact .inr ⟨m.ctl, grows_of_eq rfl rfl, rfl, rfl, rfl, rfl⟩
    | execute i _ _ => exact .inl (grows_execute m.ctl i)
    | receive => exact .inl (grows_of_eq rfl rfl)
    | begin _ _ _ _ _ h => exact .inl (grows_beginCompletion h)
    | finish now fr _ _ => exact .inl (grows_endCompletion now fr.record fr.previous)
    | nestedKey => exact .inl (grows_of_eq rfl rfl)
  | setKey => exact .inl (grows_of_eq rfl rfl)
  | submit _ _ _ _ _ _ _ _ h =>
    obtain ⟨c₁, hg, hsent, hcomp, hclosed, -, ⟨rfl, -⟩ | rfl⟩ := submit_buffer h
    · exact .inl hg
    · exact .inr ⟨c₁, hg, hsent, hcomp, hclosed, rfl⟩
  | shut => exact .inl (grows_of_eq rfl rfl)

theorem Step.stamped (hs : Step m m') (h : m.ctl.Stamped) : m'.ctl.Stamped := by
  rcases hs.buffer with hg | ⟨c₁, -, -, -, -, hflush⟩
  · exact hg.stamped h
  · rw [hflush]
    exact stamped_flush c₁

/-- The ready buffer carries a stamp exactly while it holds requests, in every state of every
run. -/
theorem Reachable.stamped {cfg : Config} (hm : Reachable cfg m) : m.ctl.Stamped := by
  induction hm with
  | start => simp [Stamped, Machine.start]
  | step _ hs ih => exact hs.stamped ih

/-- Requests leave the ready buffer only all together: every transition either only appends to
it, or takes all of it, with what the transition added, as one non-empty batch, which goes to
the executor while the controller is open and to the completions with `Closed` once it is
closed. -/
theorem Step.hands (hs : Step m m') :
    m.ctl.active <+: m'.ctl.active ∨
    ∃ batch, m.ctl.active <+: batch ∧ batch ≠ [] ∧ m'.ctl.active = [] ∧
      (m.ctl.closed = false ∧ m'.ctl.sent = m.ctl.sent ++ [batch] ∨
        m.ctl.closed = true ∧
          m'.ctl.completed = m.ctl.completed ++ batch.map fun r => ⟨r.id, .error .closed⟩) := by
  rcases hs.buffer with hg | ⟨c₁, hg, hsent, hcomp, hclosed, hflush⟩
  · exact .inl hg.appends
  · rw [hflush, flush_active]
    by_cases hne : c₁.active = []
    · -- flushing an empty buffer hands nothing on
      left
      exact hne ▸ hg.appends
    · rw [← hsent, ← hcomp, ← hclosed]
      exact .inr ⟨c₁.active, hg.appends, hne, rfl, flush_hands hne⟩

end Machine

/-! ## The stamp along the processing thread -/

namespace World

open Controller

variable {w w' : World} {cfg : Config}

/-- The handler is a controller whose ready buffer is stamped right. -/
def Stamped (w : World) : Prop := ∃ c, w.handler = .controller c ∧ c.Stamped

theorem Stamped.of_handler (h : w.Stamped) (hh : w'.handler = w.handler) : w'.Stamped := by
  obtain ⟨c, hc, hs⟩ := h
  exact ⟨c, hh.trans hc, hs⟩

theorem Stamped.onController (h : w.Stamped) {f : Controller Ticket → Controller Ticket}
    (hf : ∀ c, c.Stamped → (f c).Stamped) : (w.onController f).Stamped := by
  obtain ⟨c, hc, hs⟩ := h
  exact ⟨f c, by simp [World.onController, hc], hf c hs⟩

theorem Stamped.submitTo (h : w.Stamped) {c : Controller Ticket}
    (hc : w.handler = .controller c) (h' : Handle) (ns : Bytes) (op : Operation) :
    (w.submitTo c h' ns op).2.Stamped := by
  obtain ⟨c₀, hc₀, hs⟩ := h
  obtain rfl : c₀ = c := Handler.controller.inj (hc₀.symm.trans hc)
  unfold World.submitTo
  dsimp only
  split
  · exact ⟨c₀, hc, hs⟩
  · next c' hsub =>
    refine ⟨c', rfl, ?_⟩
    obtain ⟨c₁, hg, -, -, -, -, ⟨rfl, -⟩ | rfl⟩ := submit_buffer hsub
    · exact hg.stamped hs
    · exact stamped_flush c₁

theorem Stamped.beginCompletion (h : w.Stamped) {res : Except StateError Response}
    {ticket : Ticket} {record : Nat} {previous : Option RecordContext}
    (hb : w.beginCompletion = (some (res, ticket, record, previous), w')) : w'.Stamped := by
  obtain ⟨c, hc, hs⟩ := h
  unfold World.beginCompletion at hb
  rw [hc] at hb
  dsimp only at hb
  split at hb
  · cases hb
  · next comp f prev c' hcb =>
    cases hb
    exact ⟨c', rfl, (grows_beginCompletion hcb).stamped hs⟩

end World

/-- Every step of the interpreter keeps the ready buffer stamped right. -/
theorem World.Stamped.threadInvariant :
    ThreadInvariant (fun _ w => w.Stamped) fun _ _ _ => True where
  settle _ h _ _ := h.of_handler rfl
  twice h _ _ := h.of_handler rfl
  append h _ := h.of_handler rfl
  drop h := h
  target _ _ := trivial
  pair _ h := h
  compose h := h
  log _ h := h.of_handler rfl
  gather _ h := ⟨h.of_handler (World.gatherResult_handler _ _ _), fun _ _ _ => trivial⟩
  flush h := h.onController fun c _ => Controller.stamped_flush c
  collect h := h.onController fun c hs => (Controller.grows_collect c).stamped hs
  submit h' ns op h hc _ := h.submitTo hc h' ns op
  direct _ _ _ h hd := by
    obtain ⟨c, hc, -⟩ := h
    cases hd.symm.trans hc
  begin h hb := ⟨h.beginCompletion hb, trivial⟩
  finish _ _ h := h.onController fun c hs => (Controller.grows_endCompletion _ _ _).stamped hs

/-- Every step of the processing thread keeps the ready buffer stamped right. -/
theorem World.Stamped.callInvariant :
    CallInvariant (fun _ _ w => w.Stamped) fun _ _ _ _ => True where
  thread _ := World.Stamped.threadInvariant
  setKey _ h := h.onController fun _ hs => (Controller.grows_of_eq rfl rfl).stamped hs
  execute i h := h.onController fun c hs => (Controller.grows_execute c i).stamped hs
  receive h := h.onController fun _ hs => (Controller.grows_of_eq rfl rfl).stamped hs
  shut h := h.onController fun _ hs => (Controller.grows_of_eq rfl rfl).stamped hs
  pace _ h := h.onController fun _ hs => (Controller.grows_of_eq rfl rfl).stamped hs
  tick _ h := h.of_handler rfl
  ready _ h := h.of_handler rfl
  derive _ h := h.of_handler rfl
  log _ _ _ h := h
  combine _ _ h := h.of_handler rfl
  promise h := h.of_handler rfl
  resolve h _ := ⟨h, trivial⟩

/-! ## The batch size between turns -/

namespace World

open Controller

variable {w w' : World} {cfg : Config}

/-- The handler is a controller that keeps pace, with fewer requests in its ready buffer than the
batch size. -/
def Within (cfg : Config) (w : World) : Prop :=
  w.Paced cfg ∧ ∀ c, w.handler = .controller c → c.bufferedCount < cfg.batchSize

theorem Within.of_handler (h : w.Within cfg) (hh : w'.handler = w.handler) : w'.Within cfg :=
  ⟨h.1.of_handler hh, fun c hc => h.2 c (hh.symm.trans hc)⟩

/-- A change of the controller that keeps pace and does not add to the ready buffer. -/
theorem Within.onController (h : w.Within cfg) {f : Controller Ticket → Controller Ticket}
    (hf : Steady f) (hb : ∀ c, (f c).bufferedCount ≤ c.bufferedCount) :
    (w.onController f).Within cfg := by
  obtain ⟨hp, hbound⟩ := h
  refine ⟨hp.onController hf, fun c hc => ?_⟩
  obtain ⟨c₀, hc₀, -, -⟩ := hp
  simp only [World.onController, hc₀, Handler.controller.injEq] at hc
  rw [← hc]
  exact Nat.lt_of_le_of_lt (hb c₀) (hbound c₀ hc₀)

/-- A flush brings a controller that keeps pace within any positive batch size. -/
theorem Paced.flush_within (h : w.Paced cfg) (hpos : 0 < cfg.batchSize) :
    (w.onController Controller.flush).Within cfg := by
  refine ⟨h.onController steady_flush, fun c hc => ?_⟩
  obtain ⟨c₀, hc₀, -, -⟩ := h
  simp only [World.onController, hc₀, Handler.controller.injEq] at hc
  rw [← hc]
  simpa [bufferedCount] using hpos

/-- A submission below the in-flight limit leaves the buffer below the batch size: it flushes
the buffer when its request fills it. -/
theorem Within.submitTo (h : w.Within cfg) {c : Controller Ticket}
    (hc : w.handler = .controller c) (hroom : w.full = false) (h' : Handle) (ns : Bytes)
    (op : Operation) : (w.submitTo c h' ns op).2.Within cfg := by
  refine ⟨h.1.submitTo hc hroom h' ns op, fun c' hc' => ?_⟩
  obtain ⟨⟨c₀, hc₀, hcfg, -⟩, hbound⟩ := h
  obtain rfl : c₀ = c := Handler.controller.inj (hc₀.symm.trans hc)
  revert hc'
  unfold World.submitTo
  dsimp only
  split
  · exact hbound c'
  · next c₂ hsub =>
    intro hc'
    obtain rfl : c₂ = c' := Handler.controller.inj hc'
    obtain ⟨c₁, -, -, -, -, -, ⟨rfl, hlt⟩ | rfl⟩ := submit_buffer hsub
    · rwa [← hcfg]
    · simpa [bufferedCount] using Nat.lt_of_le_of_lt (Nat.zero_le _) (hbound c₀ hc₀)

end World

/-- Taking completions counts them, and taking none changes nothing. -/
theorem takeAll_count (n k : Nat) (w₀ : World) :
    Run.Spec (· = w₀) (takeAll n k) fun m w => k < m ∨ m = k ∧ w = w₀ := by
  induction n generalizing k w₀ with
  | zero => rw [takeAll]; exact Run.Spec.pure fun w hw => .inr ⟨rfl, hw⟩
  | succ n ih =>
    rw [takeAll]
    refine Run.Spec.bind (Run.Spec.modifyGet (Q := fun o w => o = none → w = w₀)
      fun w hw hnone => ?_) fun o => ?_
    · subst hw
      exact World.beginCompletion_none (Prod.ext hnone rfl)
    · split
      · exact Run.Spec.pure fun w hw => .inr ⟨rfl, hw rfl⟩
      · refine Run.Spec.bind (Q := fun _ _ => True) (fun _ _ => trivial) fun _ => ?_
        refine Run.Spec.bind (Q := fun _ _ => True) (fun _ _ => trivial) fun _ => ?_
        intro w _
        rcases ih (k + 1) w w rfl with h | ⟨h, -⟩ <;> exact .inl (by omega)

/-- Taking completions keeps pace, and when it takes none it keeps whatever held before. -/
theorem takeAll_none_keeps {cfg : Config} {R : World → Prop} (n : Nat) :
    Run.Spec (fun w => w.Paced cfg ∧ R w) (takeAll n 0) fun m w => w.Paced cfg ∧ (m = 0 → R w) :=
  fun w hw => by
    refine ⟨((Paced.threadInvariant cfg).keeps n).takeAll 0 [] w hw.1, fun hm => ?_⟩
    rcases takeAll_count n 0 w w rfl with h | ⟨-, h⟩
    · omega
    · rw [h]
      exact hw.2

open Run Controller

/-- Reading the world keeps what holds of it, and names it. -/
theorem Run.Spec.get_self {P : World → Prop} :
    Spec P (MonadState.get : Run World) fun a w => P w ∧ a = w :=
  Spec.get fun _ hw => ⟨hw, rfl⟩

section Bounded

variable {cfg : Config}

/-- A turn of the controller ends below the batch size: the completions it takes may fill the
buffer past it, and the flush that ends the turn empties it. -/
theorem within_pass (hpos : 0 < cfg.batchSize) (n : Nat) :
    Spec (World.Within cfg) (pass n) fun _ => World.Within cfg := by
  cases n with
  | zero => rw [pass]; exact Spec.pure fun _ hw => hw
  | succ n =>
    rw [pass]
    refine Spec.bind (Spec.modify (Q := fun _ w => w.Paced cfg)
      fun w hw => hw.1.onController steady_flush) fun _ => ?_
    refine Spec.bind (Spec.modify (Q := fun _ w => w.Paced cfg)
      fun w hw => hw.onController steady_collect) fun _ => ?_
    refine Spec.bind (((Paced.threadInvariant cfg).keeps n).takeAll 0 []) fun _ => ?_
    exact Spec.bind (Spec.modify fun w hw => hw.flush_within hpos) fun _ =>
      Spec.pure fun _ hw => hw

/-- Every function of the interpreter but `takeAll`, at budget `n`, keeps the ready buffer below
the batch size; waiting for room also gives whether the controller is below its in-flight
limit. -/
structure Bounded (cfg : Config) (n : Nat) : Prop where
  settle : ∀ i r, Spec (World.Within cfg) (OrderedState.settle n i r) fun _ => World.Within cfg
  resume : ∀ k r, Spec (World.Within cfg) (OrderedState.resume n k r) fun _ => World.Within cfg
  attach : ∀ i k, Spec (World.Within cfg) (OrderedState.attach n i k) fun _ => World.Within cfg
  perform : ∀ p x q,
    Spec (World.Within cfg) (OrderedState.perform n p x q) fun _ => World.Within cfg
  invoke : ∀ h name args,
    Spec (World.Within cfg) (OrderedState.invoke n h name args) fun _ => World.Within cfg
  request : ∀ h op, Spec (World.Within cfg) (OrderedState.request n h op) fun _ => World.Within cfg
  makeRoom : Spec (World.Within cfg) (OrderedState.makeRoom n) fun b w =>
    w.Within cfg ∧ (b = true → w.full = false)
  waitFor : ∀ i, Spec (World.Within cfg) (OrderedState.waitFor n i) fun _ => World.Within cfg

theorem bounded_zero : Bounded cfg 0 where
  settle _ _ := by rw [OrderedState.settle]; exact Spec.pure fun _ hw => hw
  resume _ _ := by rw [OrderedState.resume]; exact Spec.pure fun _ hw => hw
  attach _ _ := by rw [OrderedState.attach]; exact Spec.pure fun _ hw => hw
  perform _ _ _ := by rw [OrderedState.perform]; exact Spec.pure fun _ hw => hw
  invoke _ _ _ := by rw [OrderedState.invoke]; exact Spec.pure fun _ hw => hw
  request _ _ := by rw [OrderedState.request]; exact Spec.pure fun _ hw => hw
  makeRoom := by
    rw [OrderedState.makeRoom]
    refine Spec.bind Spec.get_self fun _ => ?_
    refine Spec.pure fun w hw => ?_
    obtain ⟨hw, rfl⟩ := hw
    exact ⟨hw, by simp⟩
  waitFor _ := by rw [OrderedState.waitFor]; exact Spec.pure fun _ hw => hw

variable {n : Nat}

theorem bounded_resume (ih : Bounded cfg n) (k : Cont) (r : Outcome) :
    Spec (World.Within cfg) (OrderedState.resume (n + 1) k r) fun _ => World.Within cfg := by
  cases k with
  | log f tag keyed =>
    rw [OrderedState.resume]
    exact Spec.modify fun w hw => hw.of_handler rfl
  | map fn t => rw [OrderedState.resume]; exact ih.settle t _
  | pairWith o f t =>
    cases r with
    | ok x =>
      rw [OrderedState.resume]
      refine Spec.bind (Spec.modifyGet (Q := fun _ w => w.Within cfg) fun w hw =>
        hw.of_handler rfl) fun t' => ?_
      exact Spec.bind (ih.attach o _) fun _ => ih.attach t' _
    | error e => rw [OrderedState.resume]; exact ih.settle t _
  | gather g j =>
    rw [OrderedState.resume]
    refine Spec.bind (Spec.modifyGet (Q := fun _ w => w.Within cfg)
      fun w hw => hw.of_handler (World.gatherResult_handler _ _ _)) fun o => ?_
    split
    · exact ih.settle _ _
    · exact Spec.pure fun _ hw => hw
  | compose p t =>
    cases r with
    | ok x =>
      rw [OrderedState.resume]
      refine Spec.bind (ih.perform p x none) fun _ => ?_
      split
      · exact ih.attach _ _
      · exact ih.settle t _
      · exact ih.settle t _
    | error e => rw [OrderedState.resume]; exact ih.settle t _
  | forward t => rw [OrderedState.resume]; exact ih.settle t _

theorem bounded_request (ih : Bounded cfg n) (h : Handle) (op : Operation) :
    Spec (World.Within cfg) (OrderedState.request (n + 1) h op) fun _ => World.Within cfg := by
  rw [OrderedState.request]
  split
  · exact Spec.pure fun w hw => hw
  · refine Spec.bind Spec.get_self fun a => ?_
    split
    · exact Spec.pure fun w hw => hw.1
    · next d hd =>
      -- a world within the bound holds a controller, not a direct handler
      refine Spec.modifyGet fun w hw => ?_
      obtain ⟨⟨⟨c, hc, -⟩, -⟩, rfl⟩ := hw
      cases hd.symm.trans hc
    · split
      · exact Spec.pure fun w hw => hw.1
      · exact Spec.pure fun w hw => hw.1
      · refine Spec.bind (Spec.pre (fun w hw => hw.1) ih.makeRoom) fun b => ?_
        split
        · next hb =>
          refine Spec.bind (Spec.get (Q := fun a w => (w.Within cfg ∧ w.full = false) ∧ a = w)
            fun w hw => ⟨⟨hw.1, hw.2 hb⟩, rfl⟩) fun a => ?_
          split
          · next c hc =>
            refine Spec.bind (Spec.modifyGet (Q := fun _ w => w.Within cfg) fun w hw => by
              obtain ⟨⟨hw, hfull⟩, rfl⟩ := hw
              exact hw.submitTo hc hfull h _ op) fun s => ?_
            split
            · exact Spec.pure fun w hw => hw
            · split
              · refine Spec.bind (ih.waitFor _) fun v => ?_
                split <;> exact Spec.pure fun w hw => hw
              · exact Spec.pure fun w hw => hw
          · exact Spec.pure fun w hw => hw.1.1
        · exact Spec.pure fun w hw => hw.1

theorem bounded_succ (hpos : 0 < cfg.batchSize) (ih : Bounded cfg n) : Bounded cfg (n + 1) where
  settle i r := by
    rw [OrderedState.settle]
    refine Spec.bind Spec.get_self fun a => ?_
    split
    · next ks _ =>
      refine Spec.bind (Spec.modify (Q := fun _ w => w.Within cfg)
        fun w hw => hw.1.of_handler rfl) fun _ => ?_
      exact Spec.forM (I := fun _ => World.Within cfg) (fun x _ => ih.resume x r) ks
    · exact Spec.modify fun w hw => hw.1.of_handler rfl
    · exact Spec.pure fun w hw => hw.1
  resume := bounded_resume ih
  attach i k := by
    rw [OrderedState.attach]
    refine Spec.bind Spec.get_self fun a => ?_
    split
    · exact Spec.modify fun w hw => hw.1.of_handler rfl
    · exact Spec.pre (fun w hw => hw.1) (ih.resume k _)
    · exact Spec.pure fun w hw => hw.1
  perform p x q := by
    cases p with
    | nil => rw [OrderedState.perform]; exact Spec.pure fun w hw => hw
    | cons e rest =>
      cases e with
      | await s => rw [OrderedState.perform]; exact ih.perform rest x _
      | call h name args valueFrom =>
        rw [OrderedState.perform]
        split
        · exact Spec.pure fun w hw => hw
        · refine Spec.bind (ih.invoke h name _) fun _ => ?_
          split
          · exact ih.perform rest x _
          · exact ih.perform rest _ none
          · exact Spec.pure fun w hw => hw
  invoke h name args := by
    rw [OrderedState.invoke]
    split
    · exact Spec.pure fun w hw => hw
    · exact ih.request h _
  request := bounded_request ih
  makeRoom := by
    rw [OrderedState.makeRoom]
    refine Spec.bind Spec.get_self fun a => ?_
    split
    · exact Spec.bind (Spec.pre (fun w hw => hw.1) (within_pass hpos n)) fun _ => ih.makeRoom
    · next hfull =>
      exact Spec.pure fun w hw => by
        obtain ⟨hw, rfl⟩ := hw
        exact ⟨hw, fun _ => by simpa using hfull⟩
  waitFor i := by
    rw [OrderedState.waitFor]
    refine Spec.bind Spec.get_self fun a => ?_
    split
    · exact Spec.pure fun w hw => hw.1
    · refine Spec.bind (Spec.pre (fun w hw => hw.1) (within_pass hpos n)) fun _ => ?_
      refine Spec.bind Spec.get_self fun a => ?_
      split
      · split <;> exact Spec.pure fun w hw => hw.1
      · exact Spec.pre (fun w hw => hw.1) (ih.waitFor i)

/-- Every function of the interpreter but `takeAll`, at every budget, keeps the ready buffer
below a positive batch size. -/
theorem bounded (hpos : 0 < cfg.batchSize) : ∀ n, Bounded cfg n
  | 0 => bounded_zero
  | n + 1 => bounded_succ hpos (bounded hpos n)

/-! ## The thread's own calls -/

theorem within_settleAll (hpos : 0 < cfg.batchSize) :
    ∀ n, Spec (World.Within cfg) (settleAll n) fun _ => World.Within cfg
  | 0 => by rw [settleAll]; exact Spec.pure fun _ hw => hw
  | n + 1 => by
    rw [settleAll]
    refine Spec.bind Spec.get_self fun a => ?_
    split
    · exact Spec.bind (Spec.pre (fun w hw => hw.1) (within_pass hpos n)) fun _ =>
        within_settleAll hpos n
    · exact Spec.pure fun w hw => hw.1

theorem within_waitWithin (hpos : 0 < cfg.batchSize) (i ms : Nat) :
    ∀ n, Spec (World.Within cfg) (waitWithin n i ms) fun _ => World.Within cfg
  | 0 => by rw [waitWithin]; exact Spec.pure fun _ hw => hw
  | n + 1 => by
    rw [waitWithin]
    refine Spec.bind Spec.get_self fun a => ?_
    split
    · exact Spec.pure fun w hw => hw.1
    · split
      · exact Spec.pure fun w hw => hw.1
      · exact Spec.bind (Spec.pre (fun w hw => hw.1) (within_pass hpos n)) fun _ =>
          within_waitWithin hpos i ms n

/-- A poll ends below the batch size: it flushes when it took a completion, and when it took
none it changed nothing but the completions collected and, for an expired buffer, a flush. -/
theorem within_poll (hpos : 0 < cfg.batchSize) (n : Nat) :
    Spec (World.Within cfg) (poll n) fun _ => World.Within cfg := by
  unfold poll
  refine Spec.bind Spec.get_self fun a => ?_
  dsimp only
  split
  case' isTrue =>
    refine Spec.bind (Spec.modify (Q := fun _ w => w.Within cfg) fun w hw =>
      hw.1.onController steady_flush fun c => by simp [bufferedCount]) fun _ => ?_
  case' isFalse => refine Spec.pre (fun w hw => hw.1) ?_
  all_goals
    refine Spec.bind (Spec.modify (Q := fun _ w => w.Paced cfg ∧ w.Within cfg) fun w hw =>
      ⟨hw.1.onController steady_collect, hw.onController steady_collect fun c => by
        simp [bufferedCount]⟩) fun _ => ?_
    refine Spec.bind (takeAll_none_keeps n) fun m => ?_
    split
    · exact Spec.bind (Spec.modify fun w hw => hw.1.flush_within hpos) fun _ =>
        Spec.pure fun _ hw => hw
    · next hm => exact Spec.pure fun w hw => hw.2 (by omega)

theorem within_shutDown (hpos : 0 < cfg.batchSize) (n : Nat) :
    Spec (World.Within cfg) (shutDown n) fun _ => World.Within cfg := by
  unfold shutDown
  refine Spec.bind Spec.get_self fun a => ?_
  split
  · split
    · exact Spec.pure fun w hw => hw.1
    · refine Spec.bind (Spec.pre (fun w hw => hw.1) (within_settleAll hpos n)) fun _ => ?_
      exact Spec.modify fun w hw => hw.onController steady_shut fun _ => Nat.le_refl _
  · exact Spec.pure fun w hw => hw.1

theorem within_combine (hpos : 0 < cfg.batchSize) (n : Nat) (slots : List Nat) :
    Spec (World.Within cfg) (combine n slots) fun _ => World.Within cfg := by
  unfold combine
  split
  · exact Spec.modifyGet fun w hw => hw.of_handler rfl
  · refine Spec.bind (Spec.modifyGet (Q := fun _ w => w.Within cfg) fun w hw =>
      hw.of_handler rfl) fun t => ?_
    refine Spec.bind (Spec.modifyGet (Q := fun _ w => w.Within cfg) fun w hw =>
      hw.of_handler rfl) fun g => ?_
    refine Spec.bind (Q := fun _ w => w.Within cfg) ?_ fun _ => Spec.pure fun _ hw => hw
    exact Spec.forM (I := fun _ => World.Within cfg) (fun _ _ => (bounded hpos n).attach _ _) _

/-- Every call of the processing thread ends below the batch size. -/
theorem within_call (hpos : 0 < cfg.batchSize) (n : Nat) (c : Call) :
    Spec (World.Within cfg) (c.run n) fun _ => World.Within cfg := by
  have hb := bounded hpos n
  have done : Spec (World.Within cfg) (Pure.pure () : Run Unit) fun _ => World.Within cfg :=
    Spec.pure fun _ hw => hw
  cases c with
  | setKey key =>
    exact Spec.modify fun w hw => hw.onController (steady_setCurrentKey key) fun _ => Nat.le_refl _
  | invoke h name args => exact Spec.bind (hb.invoke h name args) fun _ => done
  | request h op => exact Spec.bind (hb.request h op) fun _ => done
  | room => exact Spec.bind hb.makeRoom fun _ => Spec.pure fun _ hw => hw.1
  | trigger =>
    exact Spec.modify fun w hw => hw.onController steady_flush fun c => by simp [bufferedCount]
  | execute i =>
    exact Spec.modify fun w hw => hw.onController (steady_execute i) fun c => by
      obtain ⟨_, _, _, h⟩ := execute_eq_with c i
      simp [bufferedCount, h]
  | receive => exact Spec.modify fun w hw => hw.onController steady_receive fun _ => Nat.le_refl _
  | poll => exact Spec.bind (within_poll hpos n) fun _ => done
  | turn => exact Spec.bind (within_pass hpos n) fun _ => done
  | wait i => exact Spec.bind (hb.waitFor i) fun _ => done
  | waitWithin i ms => exact Spec.bind (within_waitWithin hpos i ms n) fun _ => done
  | drain => exact within_settleAll hpos n
  | close => exact within_shutDown hpos n
  | ready r =>
    exact Spec.bind (Spec.modifyGet (Q := fun _ w => w.Within cfg) fun w hw =>
      hw.of_handler rfl) fun _ => done
  | derive src d =>
    exact Spec.bind (Spec.modifyGet (Q := fun _ w => w.Within cfg) fun w hw =>
      hw.of_handler rfl) fun t => hb.attach src _
  | onComplete src f tag keyed => exact hb.attach src _
  | combine slots => exact Spec.bind (within_combine hpos n slots) fun _ => done
  | tick ms => exact Spec.modify fun w hw => hw.of_handler rfl

/-- Every step of the processing thread ends below the batch size, also the resolution of a
promise it holds, whose continuations may make requests. -/
theorem within_next (hpos : 0 < cfg.batchSize) {s s' : List Nat × World} (hs : Next s s')
    (h : s.2.Within cfg) : s'.2.Within cfg := by
  cases hs with
  | call c n => exact within_call hpos n c _ h
  | promise => exact h.of_handler rfl
  | resolve n r _ => exact (bounded hpos n).settle _ r _ h
  | pace p => exact h.onController (fun _ => ⟨rfl, rfl, rfl⟩) fun _ => Nat.le_refl _

/-- In every world the thread reaches from a fresh controller with a positive batch size, fewer
requests than the batch size wait in the ready buffer. -/
theorem Reaches.within (hpos : 0 < cfg.batchSize) {s : List Nat × World} (hs : Reaches cfg s) :
    s.2.Within cfg := by
  induction hs with
  | refl =>
    refine ⟨⟨_, rfl, rfl, ⟨Nat.zero_le _, by simp⟩⟩, fun c hc => ?_⟩
    cases hc
    simpa [bufferedCount] using hpos
  | tail _ hnext ih => exact within_next hpos hnext ih

end Bounded

/-! ## Polling -/

namespace World

variable {w : World} {cfg : Config} {c : Controller Ticket} {now : Nat}

/-- The ready buffer is empty, or it is the buffer of `c` with its stamp, which had not expired at
time `now`. -/
def Unexpired (c : Controller Ticket) (now : Nat) (w : World) : Prop :=
  ∃ c', w.handler = .controller c' ∧
    (c'.active = [] ∨ c'.active = c.active ∧ c'.activeSince = c.activeSince ∧ c.expired now = false)

theorem Unexpired.collect (h : w.Unexpired c now) :
    (w.onController Controller.collect).Unexpired c now := by
  obtain ⟨c', hc', h'⟩ := h
  exact ⟨c'.collect, by simp [World.onController, hc'], by simpa using h'⟩

theorem Paced.flush_unexpired (h : w.Paced cfg) :
    (w.onController Controller.flush).Unexpired c now := by
  obtain ⟨c', hc', -⟩ := h
  exact ⟨c'.flush, by simp [World.onController, hc'], .inl (Controller.flush_active c')⟩

end World

/-- A poll leaves the ready buffer empty, or leaves the buffer it found, which had not expired:
it flushes an expired buffer first, and flushes again when it took a completion. -/
theorem poll_unexpired {cfg : Config} {c : Controller Ticket} {w₀ : World}
    (hc : w₀.handler = .controller c) (hp : w₀.Paced cfg) (n : Nat) :
    Spec (· = w₀) (poll n) fun _ w => w.Unexpired c w₀.clock := by
  unfold poll
  refine Spec.bind Spec.get_self fun a => ?_
  dsimp only
  split
  case' isTrue =>
    refine Spec.bind (Spec.modify (Q := fun _ w => w.Paced cfg ∧ w.Unexpired c w₀.clock)
      fun w hw => ?_) fun _ => ?_
    · obtain ⟨rfl, rfl⟩ := hw
      exact ⟨hp.onController steady_flush, hp.flush_unexpired⟩
  case' isFalse hexp =>
    have hpre : ∀ w, w = w₀ ∧ a = w → w.Paced cfg ∧ w.Unexpired c w₀.clock := by
      rintro w ⟨rfl, rfl⟩
      exact ⟨hp, c, hc, .inr ⟨rfl, rfl, by simpa [World.expired, hc] using hexp⟩⟩
    refine Spec.pre hpre ?_
  all_goals
    refine Spec.bind (Spec.modify (Q := fun _ w => w.Paced cfg ∧ w.Unexpired c w₀.clock)
      fun w hw => ⟨hw.1.onController steady_collect, hw.2.collect⟩) fun _ => ?_
    refine Spec.bind (takeAll_none_keeps n) fun m => ?_
    split
    · exact Spec.bind (Spec.modify fun w hw => hw.1.flush_unexpired) fun _ =>
        Spec.pure fun _ hw => hw
    · next hm => exact Spec.pure fun w hw => hw.2 (by omega)

/-- The batch-full flush is never missed. For every valid configuration:

* in every world the processing thread reaches from a fresh controller, through any of its calls
  at any budgets, with continuations that submit and wait inside them, fewer requests than the
  batch size wait in the ready buffer, and the buffer carries a stamp exactly while it holds
  requests;
* a poll made there leaves the buffer empty, or leaves the buffer it found, which became
  non-empty less than the buffer timeout before the poll;
* in every state of every run of the controller the stamp is right;
* every transition of the controller either only appends to the buffer, or takes all of it, with
  what the transition added, as one non-empty batch: to the executor while the controller is
  open, completed with `Closed` once it is closed. -/
theorem ready_buffer_flushes {cfg : Config} (hcfg : cfg.Valid) :
    (∀ ps w, Reaches cfg (ps, w) → ∃ c, w.handler = .controller c ∧
      c.bufferedCount < cfg.batchSize ∧ c.Stamped ∧
      ∀ n, ∃ c', ((poll n).run w).2.handler = .controller c' ∧
        (c'.active = [] ∨
          c'.active = c.active ∧ ∃ t, c.activeSince = some t ∧ w.clock - t < cfg.bufferTimeoutMs)) ∧
    (∀ {τ : Type} (m : Machine τ), m.Reachable cfg → m.ctl.Stamped) ∧
    (∀ {τ : Type} (m m' : Machine τ), m.Step m' →
      m.ctl.active <+: m'.ctl.active ∨
      ∃ batch, m.ctl.active <+: batch ∧ batch ≠ [] ∧ m'.ctl.active = [] ∧
        (m.ctl.closed = false ∧ m'.ctl.sent = m.ctl.sent ++ [batch] ∨
          m.ctl.closed = true ∧
            m'.ctl.completed = m.ctl.completed ++ batch.map fun r => ⟨r.id, .error .closed⟩)) := by
  refine ⟨fun ps w hw => ?_, fun m hm => hm.stamped, fun m m' hs => hs.hands⟩
  have hwithin := Reaches.within hcfg.1 hw
  obtain ⟨c, hc, hcfg', hpaced⟩ := hwithin.1
  obtain ⟨c₀, hc₀, hs⟩ := World.Stamped.callInvariant.reaches
    ⟨_, rfl, by simp [Controller.Stamped]⟩ hw
  obtain rfl : c₀ = c := Handler.controller.inj (hc₀.symm.trans hc)
  refine ⟨c₀, hc, hwithin.2 c₀ hc, hs, fun n => ?_⟩
  obtain ⟨c', hc', hleft⟩ := poll_unexpired hc hwithin.1 n w rfl
  refine ⟨c', hc', ?_⟩
  rcases hleft with h | ⟨ha, -, hexp⟩
  · exact .inl h
  · by_cases hne : c₀.active = []
    · exact .inl (ha.trans hne)
    · -- a buffer that holds requests carries the time it became non-empty
      obtain ⟨t, ht⟩ := Option.isSome_iff_exists.mp (hs.mpr hne)
      refine .inr ⟨ha, t, ht, ?_⟩
      simp only [Controller.expired, ht, hcfg', decide_eq_false_iff_not] at hexp
      omega

/-- Two reads under one record through a controller with the default configuration: both wait
in the ready buffer, stamped with the time it became non-empty. A poll before the buffer timeout
leaves them there; once the timeout has passed, a poll flushes the buffer, and the executor runs
the batch before the controller's turn. -/
theorem two_reads_buffer_flushed :
    let h : String → Handle := fun s => ⟨"v", s, .value, ⟨.i64, .json⟩, ⟨.i64, .json⟩, .void, .void⟩
    let op : Operation := ⟨.valueGet, .empty, .value .valueGet ⟨.i64, .json⟩, false⟩
    let w₂ := ((Call.run 10 (.request (h "t") op)).run ((Call.run 10 (.request (h "s") op)).run
      ((Call.run 0 (.setKey 1)).run (initial {}).2).2).2).2
    let w₃ := ((Call.run 0 (.tick 1000)).run w₂).2
    Config.Valid {} ∧ Reaches {} ([], w₃) ∧
    (∃ c, w₂.handler = .controller c ∧ c.bufferedCount = 2 ∧ c.Stamped ∧
      ∀ n, ∃ c', ((poll n).run w₂).2.handler = .controller c' ∧
        (c'.active = [] ∨
          c'.active = c.active ∧ ∃ t, c.activeSince = some t ∧ w₂.clock - t < 1000)) ∧
    (match ((poll 5).run w₂).2.handler with | .controller c' => c'.bufferedCount | _ => 0) = 2 ∧
    (∃ c, w₃.handler = .controller c ∧ c.bufferedCount = 2 ∧ c.bufferedCount < 1000) ∧
    (match ((poll 5).run w₃).2.handler with | .controller c' => c'.bufferedCount | _ => 1) = 0 := by
  intro h op w₂ w₃
  have hv : Config.Valid {} := ⟨by decide, by decide, by decide⟩
  have hr₂ : Reaches {} ([], w₂) :=
    ((Relation.ReflTransGen.single (Next.call _ _)).tail (Next.call _ _)).tail (Next.call _ _)
  have hr₃ : Reaches {} ([], w₃) := hr₂.tail (Next.call _ _)
  obtain ⟨c₂, hc₂, -, hs₂, hpoll⟩ := (ready_buffer_flushes hv).1 _ _ hr₂
  obtain ⟨c₃, hc₃, hb₃, -, -⟩ := (ready_buffer_flushes hv).1 _ _ hr₃
  -- the two reads are the buffer of both worlds
  have hcount : (match w₂.handler with | .controller c => c.bufferedCount | _ => 0) = 2 ∧
      (match w₃.handler with | .controller c => c.bufferedCount | _ => 0) = 2 := by
    decide +kernel
  rw [hc₂, hc₃] at hcount
  exact ⟨hv, hr₃, ⟨c₂, hc₂, hcount.1, hs₂, hpoll⟩, by decide +kernel, ⟨c₃, hc₃, hcount.2, hb₃⟩,
    by decide +kernel⟩

end OrderedState
