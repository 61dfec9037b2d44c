import OrderedState.Proofs.Futures
import OrderedState.Proofs.Delivery

/-!
# Submission errors are synchronous and atomic

A submission on the controller is checked three times before anything happens: the request must
fit its state (`RequestType.validate`: the kind first, then the payload's shape), the controller
must take requests (`Controller.accepting`: open, then a record current), and after the wait for
room under the in-flight limit the lock section checks the last two again. A submission that
fails any check fails at once, with the check's error, and changes nothing but what the wait
for room did: no id is taken, no future made, and the in-flight table, key ownership, the pair
queues and the ready buffer stay as they were (`request_refused_atomic`).

The errors a submission refuses with are programming errors, and none of them ever reaches a
future: a submitted request's future is resolved with its completion's result, which the store
or a closed executor produced (`Machine.Delivered`). And once the controller is closed it stays
closed along every later run of the processing thread (`World.ShutController`), so every
submission that passes validation is refused with `Closed`.
-/

namespace OrderedState

/-! ## The checks -/

/-- The errors a request is checked for against its state. -/
def StateError.isMismatch : StateError → Bool
  | .kindMismatch .. | .payloadMismatch .. => true
  | _ => false

/-- A request type fits a kind when it addresses that kind, or every kind. -/
def RequestType.Fits (rt : RequestType) (kind : StateKind) : Prop := ∀ k, rt.kind? = some k → k = kind

namespace RequestType

variable {rt : RequestType} {state : String} {kind : StateKind} {p : Payload} {e : StateError}

/-- Validation looks at the kind first: a request type for another kind is refused as such,
whatever its payload. -/
theorem validate_of_not_fits (h : ¬rt.Fits kind) :
    rt.validate state kind p = .error (.kindMismatch state kind rt) := by
  obtain ⟨k, hk, hne⟩ : ∃ k, rt.kind? = some k ∧ k ≠ kind := by
    simpa [Fits] using h
  simp [validate, hk, hne]

/-- A request type that fits is refused only for the shape of its payload. -/
theorem validate_of_fits (h : rt.Fits kind) :
    rt.validate state kind p =
      if rt.shape ≠ p.shape then .error (.payloadMismatch rt rt.shape p.shape) else .ok () := by
  unfold validate
  split
  · next k hk => simp [h k hk]
  · rfl

/-- Validation refuses exactly a request type for another kind, then a payload of another
shape. -/
theorem validate_eq_error_iff :
    rt.validate state kind p = .error e ↔
      (¬rt.Fits kind ∧ e = .kindMismatch state kind rt) ∨
      (rt.Fits kind ∧ rt.shape ≠ p.shape ∧ e = .payloadMismatch rt rt.shape p.shape) := by
  by_cases hf : rt.Fits kind
  · rw [validate_of_fits hf]
    by_cases hs : rt.shape = p.shape <;> simp [hf, hs, eq_comm]
  · rw [validate_of_not_fits hf]
    simp [hf, eq_comm]

theorem isMismatch_of_validate (h : rt.validate state kind p = .error e) : e.isMismatch := by
  rcases validate_eq_error_iff.mp h with ⟨-, rfl⟩ | ⟨-, -, rfl⟩ <;> rfl

end RequestType

namespace Controller

variable {τ : Type} {c c' : Controller τ} {e : StateError}

theorem accepting_of_closed (h : c.closed = true) : c.accepting = .error .closed := by
  simp [accepting, h]

theorem accepting_of_no_record (h : c.closed = false) (hcur : c.current = none) :
    c.accepting = .error .noCurrentKey := by
  simp [accepting, h, hcur]

/-- A controller refuses requests only when closed or without a current record. -/
theorem accepting_error (h : c.accepting = .error e) : e = .closed ∨ e = .noCurrentKey := by
  unfold accepting at h
  split at h
  · cases h; exact .inl rfl
  · split at h
    · cases h; exact .inr rfl
    · cases h

/-- The lock section of a submission refuses only when closed or without a current record. -/
theorem submit_error {now : Nat} {state : String} {kind : StateKind} {rt : RequestType}
    {ns : Bytes} {payload : Payload} {promise : τ}
    (h : c.submit now state kind rt ns payload promise = .error e) :
    e = .closed ∨ e = .noCurrentKey := by
  cases hc : c.closed
  · exact .inr (submit_eq_error hc h).2
  · simp only [submit, hc, if_true, Except.error.injEq] at h
    exact .inl h.symm

end Controller

/-! ## One submission -/

namespace World

variable {w : World} {c : Controller Ticket} {h : Handle} {ns : Bytes} {op : Operation}

/-- A submission the lock section refuses leaves the world as it was. -/
theorem submitTo_error {e : StateError} (he : (w.submitTo c h ns op).1 = .error e) :
    (w.submitTo c h ns op).2 = w ∧ (e = .closed ∨ e = .noCurrentKey) := by
  unfold submitTo at he ⊢
  dsimp only at he ⊢
  split at he
  · next e' hs =>
    cases he
    exact ⟨rfl, Controller.submit_error hs⟩
  · cases he

end World

section Request

variable {fuel : Nat} {w : World} {c : Controller Ticket} {h : Handle} {op : Operation}
  {ns : Bytes} {e : StateError}

/-- A request that does not fit its state is refused before anything else is looked at. -/
theorem request_invalid (hc : w.handler = .controller c) (hns : h.namespaces.encode h.ns = .ok ns)
    (hv : op.requestType.validate h.state h.kind op.payload = .error e) :
    (request (fuel + 1) h op).run w = (.error (.failed e), w) := by
  rw [request]
  simp only [hns, Run.run_bind, Run.run_get, hc, hv]
  rfl

/-- A request that fits, on a controller that does not take requests, is refused at once. -/
theorem request_refused (hc : w.handler = .controller c) (hns : h.namespaces.encode h.ns = .ok ns)
    (hv : op.requestType.validate h.state h.kind op.payload = .ok ())
    (ha : c.accepting = .error e) :
    (request (fuel + 1) h op).run w = (.error (.failed e), w) := by
  rw [request]
  simp only [hns, Run.run_bind, Run.run_get, hc, hv, ha]
  rfl

/-- A request that passed the first checks and is refused afterwards is refused by the lock
section after the wait for room, or by the wait giving up: it leaves the world the wait left,
and its error is no mismatch. -/
theorem request_accepted_error (hc : w.handler = .controller c)
    (hns : h.namespaces.encode h.ns = .ok ns)
    (hv : op.requestType.validate h.state h.kind op.payload = .ok ())
    (ha : c.accepting = .ok ()) (hasync : op.blocking = false)
    (hr : ((request (fuel + 1) h op).run w).1 = .error (.failed e)) :
    ((request (fuel + 1) h op).run w).2 = ((makeRoom fuel).run w).2 ∧
      (e = .closed ∨ e = .noCurrentKey ∨ e = .abandoned) := by
  rw [request] at hr ⊢
  simp only [hns, Run.run_bind, Run.run_get, hc, hv, ha] at hr ⊢
  generalize (makeRoom fuel).run w = waited at hr ⊢
  obtain ⟨b, w₁⟩ := waited
  dsimp only at hr ⊢
  cases b with
  | false =>
    cases hr
    exact ⟨rfl, .inr (.inr rfl)⟩
  | true =>
    simp only [if_true, Run.run_bind, Run.run_get] at hr ⊢
    split at hr
    · next c₁ hc₁ =>
      simp only [Run.run_bind, Run.run_modifyGet] at hr ⊢
      rcases hs : w₁.submitTo c₁ h ns op with ⟨r, w₂⟩
      rw [hs] at hr
      dsimp only at hr ⊢
      cases r with
      | error e' =>
        cases hr
        obtain ⟨hw, he⟩ := World.submitTo_error (congrArg Prod.fst hs)
        rw [hs] at hw
        exact ⟨hw, he.imp_right .inl⟩
      | ok s =>
        simp only [hasync, Bool.false_eq_true, if_false] at hr
        cases hr
    · cases hr
      exact ⟨rfl, .inl rfl⟩

/-- Every refusal of a submission is validation's, before anything happens, or a refusal for
a closed controller, a missing record or a wait that gave up, which leaves the world as it was
or as the wait left it. -/
theorem request_error_cases (hc : w.handler = .controller c)
    (hns : h.namespaces.encode h.ns = .ok ns) (hasync : op.blocking = false)
    (hr : ((request (fuel + 1) h op).run w).1 = .error (.failed e)) :
    (op.requestType.validate h.state h.kind op.payload = .error e ∧
        ((request (fuel + 1) h op).run w).2 = w) ∨
      ((e = .closed ∨ e = .noCurrentKey ∨ e = .abandoned) ∧
        (((request (fuel + 1) h op).run w).2 = w ∨
          ((request (fuel + 1) h op).run w).2 = ((makeRoom fuel).run w).2)) := by
  cases hv : op.requestType.validate h.state h.kind op.payload with
  | error e' =>
    rw [request_invalid hc hns hv] at hr ⊢
    cases hr
    exact .inl ⟨rfl, rfl⟩
  | ok u =>
    cases ha : c.accepting with
    | error e' =>
      rw [request_refused hc hns hv ha] at hr ⊢
      cases hr
      exact .inr ⟨(Controller.accepting_error ha).imp_right .inl, .inl rfl⟩
    | ok u' =>
      obtain ⟨hw, he⟩ := request_accepted_error hc hns hv ha hasync hr
      exact .inr ⟨he, .inr hw⟩

end Request

/-! ## What a future is resolved with -/

/-- Whether a completion carries one of the errors raised before a request is accepted. -/
def Completion.refused (comp : Completion) : Bool :=
  match comp.result with
  | .error e => e.isProgrammingError
  | .ok _ => false

namespace Controller

variable {τ : Type}

/-- Flushing makes no completion, except `Closed` ones once the executor is stopped. -/
theorem finished_flush (c : Controller τ) :
    ∀ x ∈ c.flush.finished, x ∈ c.finished ∨ x.result = .error .closed := by
  intro x hx
  simp only [flush_eq, dispatch] at hx
  split at hx
  · exact .inl hx
  · split at hx
    · simp only [finished, List.mem_append, List.mem_map] at hx
      rcases hx with hx | hx | ⟨r, -, rfl⟩
      · exact .inl (List.mem_append_left _ hx)
      · exact .inl (List.mem_append_right _ hx)
      · exact .inr rfl
    · exact .inl hx

/-- The executor's completions carry the store's results. -/
theorem finished_execute (c : Controller τ) (i : Nat) :
    ∀ x ∈ (c.execute i).finished, x ∈ c.finished ∨
      ∃ batch, x.result ∈ (c.store.executeBatch batch).1 := by
  intro x hx
  unfold execute at hx
  split at hx
  · next batch _ =>
    simp only [runBatch, finished, List.flatten_append, List.flatten_cons, List.flatten_nil,
      List.append_nil, List.mem_append] at hx
    rcases hx with (hx | hx) | hx
    · exact .inl (List.mem_append_left _ hx)
    · exact .inr ⟨batch, result_mem_of_completionsOf hx⟩
    · exact .inl (List.mem_append_right _ hx)
  · exact .inl hx

end Controller

namespace Machine

variable {τ : Type} {cfg : Config} {m m' : Machine τ}

/-- Every completion made and not yet taken, and every completion taken, resolves its future
with something other than a programming error. -/
def Delivered (m : Machine τ) : Prop := ∀ comp ∈ m.ctl.finished ++ m.taken, comp.refused = false

theorem Delivered.of_subset (h : m.Delivered)
    (hsub : ∀ x ∈ m'.ctl.finished ++ m'.taken, x ∈ m.ctl.finished ++ m.taken ∨ x.refused = false) :
    m'.Delivered := fun x hx => (hsub x hx).elim (h x) id

/-- A store error or `Closed` is no programming error. -/
theorem refused_of_store_or_closed {x : Completion}
    (h : (∃ msg, x.result = .error (.store msg)) ∨ x.result = .error .closed ∨
      ∃ r, x.result = .ok r) : x.refused = false := by
  rcases h with ⟨msg, hx⟩ | hx | ⟨r, hx⟩ <;> simp [Completion.refused, hx, StateError.isProgrammingError]

/-- Every step keeps the completions free of programming errors: new ones come from the store
or from a stopped executor, and the others only move from made to taken. -/
theorem Delivered.step (h : m.Delivered) (hs : Step m m') : m'.Delivered := by
  refine h.of_subset fun x hx => ?_
  cases hs with
  | internal hi =>
    cases hi with
    | flush =>
      rcases List.mem_append.mp hx with hx | hx
      · rcases Controller.finished_flush _ x hx with hx | hx
        · exact .inl (List.mem_append_left _ hx)
        · exact .inr (refused_of_store_or_closed (.inr (.inl hx)))
      · exact .inl (List.mem_append_right _ hx)
    | execute i batch _ =>
      rcases List.mem_append.mp hx with hx | hx
      · rcases Controller.finished_execute _ i x hx with hx | ⟨b, hb⟩
        · exact .inl (List.mem_append_left _ hx)
        · refine .inr (refused_of_store_or_closed ?_)
          cases hr : x.result with
          | error e =>
            obtain ⟨msg, rfl⟩ := Store.executeBatch_error hb hr
            exact .inl ⟨msg, rfl⟩
          | ok r => exact .inr (.inr ⟨r, rfl⟩)
      · exact .inl (List.mem_append_right _ hx)
    | receive =>
      refine .inl ?_
      simpa [Controller.receive, Controller.finished, or_comm, or_left_comm, or_assoc] using hx
    | begin now comp f previous c hb =>
      -- the completion taken moves from the collected ones to the taken ones
      obtain ⟨pre, rest, hcomp, -, -, -, rfl⟩ := Controller.beginCompletion_eq_some hb
      obtain ⟨_, _, _, hr⟩ := Controller.releasePair_eq
        ({ m.ctl with completed := rest, inFlight := m.ctl.inFlight.erase comp.id } :
          Controller τ) now f.key f.state
      refine .inl ?_
      simp only [hr, Controller.finished, List.mem_append, List.mem_singleton] at hx
      simp only [Controller.finished, hcomp, List.mem_append, List.mem_cons]
      rcases hx with (hx | hx) | hx | rfl
      · exact .inl (.inl hx)
      · exact .inl (.inr (.inr (.inr hx)))
      · exact .inr hx
      · exact .inl (.inr (.inr (.inl rfl)))
    | finish now fr rest _ =>
      obtain ⟨_, _, _, _, he⟩ := Controller.endCompletion_eq_with m.ctl now fr.record fr.previous
      refine .inl ?_
      simpa [he, Controller.finished] using hx
    | nestedKey => exact .inl hx
  | setKey => exact .inl hx
  | submit now state kind rt ns payload promise c hsub =>
    obtain ⟨-, -, -, -, -, -, -, hfin⟩ := Controller.submit_fields (Controller.submit_open hsub) hsub
    refine .inl ?_
    simpa only [hfin] using hx
  | shut => exact .inl hx

theorem Reachable.delivered (hm : Reachable cfg m) : m.Delivered := by
  induction hm with
  | start => intro x hx; simp [Machine.start, Controller.finished] at hx
  | step _ hs ih => exact ih.step hs

end Machine

/-! ## A closed controller stays closed -/

namespace World

variable {w w' : World} {b : Bool}

/-- The handler is a controller, and a closed one when `shut` is set. -/
def Controlled (shut : Bool) (w : World) : Prop :=
  ∃ c, w.handler = .controller c ∧ (shut = true → c.closed = true)

theorem Controlled.of_handler (h : w.Controlled b) (hh : w'.handler = w.handler) :
    w'.Controlled b := by
  obtain ⟨c, hc, hcl⟩ := h
  exact ⟨c, hh.trans hc, hcl⟩

/-- A change of the controller that leaves it open or closed as it was. -/
theorem Controlled.onController (h : w.Controlled b) {f : Controller Ticket → Controller Ticket}
    (hf : ∀ c, (f c).closed = c.closed) : (w.onController f).Controlled b := by
  obtain ⟨c, hc, hcl⟩ := h
  exact ⟨f c, by simp [World.onController, hc], fun hb => (hf c).trans (hcl hb)⟩

theorem Controlled.shut (h : w.Controlled b) : (w.onController Controller.shut).Controlled true := by
  obtain ⟨c, hc, -⟩ := h
  exact ⟨c.shut, by simp [World.onController, hc], fun _ => rfl⟩

/-- A submission keeps the handler a controller; on a closed one it is refused and changes
nothing. -/
theorem Controlled.submitTo (h : w.Controlled b) {c : Controller Ticket}
    (hc : w.handler = .controller c) (h' : Handle) (ns : Bytes) (op : Operation) :
    (w.submitTo c h' ns op).2.Controlled b := by
  obtain ⟨c₀, hc₀, hcl⟩ := h
  obtain rfl : c₀ = c := Handler.controller.inj (hc₀.symm.trans hc)
  unfold World.submitTo
  dsimp only
  split
  · exact ⟨c₀, hc, hcl⟩
  · next c' hs =>
    refine ⟨c', rfl, fun hb => ?_⟩
    -- a closed controller takes no submission
    have hopen := Controller.submit_open hs
    rw [hcl hb] at hopen
    cases hopen

theorem Controlled.beginCompletion (h : w.Controlled b) {res : Except StateError Response}
    {ticket : Ticket} {record : Nat} {previous : Option RecordContext}
    (hb : w.beginCompletion = (some (res, ticket, record, previous), w')) : w'.Controlled b := by
  obtain ⟨c, hc, hcl⟩ := h
  unfold World.beginCompletion at hb
  rw [hc] at hb
  dsimp only at hb
  split at hb
  · cases hb
  · next comp f prev c' hcb =>
    cases hb
    obtain ⟨_, _, _, _, _, _, rfl⟩ := Controller.beginCompletion_eq_some hcb
    exact ⟨_, rfl, fun hb => by simpa using hcl hb⟩

end World

theorem Controller.collect_closed {τ : Type} (c : Controller τ) :
    c.collect.closed = c.closed := by
  obtain ⟨_, _, _, _, _, h⟩ := collect_eq_with c
  rw [h]

theorem Controller.execute_closed {τ : Type} (c : Controller τ) (i : Nat) :
    (c.execute i).closed = c.closed := by
  obtain ⟨_, _, _, h⟩ := execute_eq_with c i
  rw [h]

/-- Every step of the interpreter keeps the handler a controller, and a closed one closed. -/
theorem World.Controlled.threadInvariant (b : Bool) :
    ThreadInvariant (fun _ w => w.Controlled b) fun _ _ _ => True where
  settle _ h _ _ := h.of_handler rfl
  twice h _ _ := h.of_handler rfl
  append h _ := h.of_handler rfl
  drop h := h
  target _ _ := trivial
  pair _ h := h
  compose h := h
  log _ h := h.of_handler rfl
  gather _ h := ⟨h.of_handler (World.gatherResult_handler _ _ _), fun _ _ _ => trivial⟩
  flush h := h.onController Controller.flush_closed
  collect h := h.onController Controller.collect_closed
  submit h' ns op h hc _ := h.submitTo hc h' ns op
  direct _ _ _ h hd := by
    obtain ⟨c, hc, -⟩ := h
    cases hd.symm.trans hc
  begin h hb := ⟨h.beginCompletion hb, trivial⟩
  finish _ _ h := h.onController fun c => Controller.endCompletion_closed c _ _ _

/-- Every step of the processing thread keeps a closed controller closed. -/
theorem World.Controlled.callInvariant : CallInvariant (fun _ _ w => w.Controlled true)
    fun _ _ _ _ => True where
  thread _ := World.Controlled.threadInvariant true
  setKey _ h := h.onController fun _ => rfl
  execute i h := h.onController fun c => Controller.execute_closed c i
  receive h := h.onController fun _ => rfl
  shut h := h.shut
  pace _ h := h.onController fun _ => rfl
  tick _ h := h.of_handler rfl
  ready _ h := h.of_handler rfl
  derive _ h := h.of_handler rfl
  log _ _ _ h := h
  combine _ _ h := h.of_handler rfl
  promise h := h.of_handler rfl
  resolve h _ := ⟨h, trivial⟩

/-- Closing a controller leaves it closed: it drains, which keeps it a controller, then
shuts. -/
theorem shutDown_closes {w : World} {c : Controller Ticket} (hc : w.handler = .controller c)
    (fuel : Nat) : ((shutDown fuel).run w).2.Controlled true := by
  unfold shutDown
  simp only [Run.run_bind, Run.run_get, hc]
  cases hcl : c.closed
  · simp only [Bool.false_eq_true, if_false, Run.run_bind]
    have hdrained := (World.Controlled.threadInvariant false).keeps_settleAll [] fuel w
      ⟨c, hc, fun h => absurd h Bool.false_ne_true⟩
    exact hdrained.shut
  · exact ⟨c, hc, fun _ => hcl⟩

/-- Submission errors are synchronous and atomic, and programming errors never reach a future.
Take a controller in any state and a submission that gives a future, from a handle whose
namespace encodes, at any budget that lets the call start.

* It fails with a mismatch exactly when validation refuses the request, and then with
  validation's error, leaving the world as it was whatever the controller's state; validation
  refuses a request type for another kind first, and only then a payload of another shape.
* A request that passes validation is refused with `Closed` by a closed controller, and then
  with `NoCurrentKey` when no record is current, leaving the world as it was.
* Every refusal leaves the world as it was, or as the wait for room under the in-flight limit
  left it: no id taken, no future made, in-flight table, key ownership, pair queues and ready
  buffer as they were.
* Along every run of the controller, no completion made or taken, which is what a submitted
  request's future is resolved with, carries a programming error.
* After the controller is closed, along every later run of the processing thread, every
  submission that passes validation is refused with `Closed` and changes nothing. -/
theorem submission_errors_synchronous {fuel : Nat} {w : World} {c : Controller Ticket}
    {h : Handle} {op : Operation} {ns : Bytes} (hc : w.handler = .controller c)
    (hns : h.namespaces.encode h.ns = .ok ns) (hasync : op.blocking = false) :
    (∀ e, (((request (fuel + 1) h op).run w).1 = .error (.failed e) ∧ e.isMismatch = true) ↔
        op.requestType.validate h.state h.kind op.payload = .error e) ∧
    (∀ e, op.requestType.validate h.state h.kind op.payload = .error e →
        (request (fuel + 1) h op).run w = (.error (.failed e), w) ∧
        ((¬op.requestType.Fits h.kind ∧ e = .kindMismatch h.state h.kind op.requestType) ∨
          (op.requestType.Fits h.kind ∧ op.requestType.shape ≠ op.payload.shape ∧
            e = .payloadMismatch op.requestType op.requestType.shape op.payload.shape))) ∧
    (op.requestType.validate h.state h.kind op.payload = .ok () →
        (c.closed = true → (request (fuel + 1) h op).run w = (.error (.failed .closed), w)) ∧
        (c.closed = false → c.current = none →
          (request (fuel + 1) h op).run w = (.error (.failed .noCurrentKey), w))) ∧
    (∀ e, ((request (fuel + 1) h op).run w).1 = .error (.failed e) →
        ((request (fuel + 1) h op).run w).2 = w ∨
          ((request (fuel + 1) h op).run w).2 = ((makeRoom fuel).run w).2) ∧
    (∀ (cfg : Config) (m : Machine Ticket), Machine.Reachable cfg m →
        ∀ comp ∈ m.ctl.finished ++ m.taken, comp.refused = false) ∧
    (∀ (fuel' : Nat) (ps : List Nat) (s : List Nat × World),
        Relation.ReflTransGen Next (ps, ((shutDown fuel').run w).2) s →
        ∀ (h' : Handle) (op' : Operation) (ns' : Bytes), h'.namespaces.encode h'.ns = .ok ns' →
          op'.requestType.validate h'.state h'.kind op'.payload = .ok () →
          (request (fuel + 1) h' op').run s.2 = (.error (.failed .closed), s.2)) := by
  refine ⟨fun e => ⟨fun ⟨hr, hm⟩ => ?_, fun hv => ⟨request_invalid hc hns hv ▸ rfl,
      RequestType.isMismatch_of_validate hv⟩⟩,
    fun e hv => ⟨request_invalid hc hns hv, RequestType.validate_eq_error_iff.mp hv⟩,
    fun hv => ⟨fun hcl => request_refused hc hns hv (Controller.accepting_of_closed hcl),
      fun hcl hcur => request_refused hc hns hv (Controller.accepting_of_no_record hcl hcur)⟩,
    fun e hr => ?_, fun cfg m hm => hm.delivered,
    fun fuel' ps s hs h' op' ns' hns' hv' => ?_⟩
  · -- a refusal after validation is for the controller's state, never a mismatch
    rcases request_error_cases hc hns hasync hr with ⟨hv, -⟩ | ⟨he, -⟩
    · exact hv
    · rcases he with rfl | rfl | rfl <;> cases hm
  · rcases request_error_cases hc hns hasync hr with ⟨-, hw⟩ | ⟨-, hw⟩
    · exact .inl hw
    · exact hw
  · -- the controller closed by `close` stays closed along the run
    obtain ⟨c', hc', hcl⟩ :=
      World.Controlled.callInvariant.run hs (shutDown_closes hc fuel')
    exact request_refused hc' hns' hv' (Controller.accepting_of_closed (hcl rfl))

/-- A read of a value state through a fresh controller with the default configuration, which
has no current record yet. -/
theorem valueGet_submission_errors :
    let h : Handle := ⟨"v", "s", .value, ⟨.i64, .json⟩, ⟨.i64, .json⟩, .void, .void⟩
    let op : Operation := ⟨.valueGet, .empty, .value .valueGet ⟨.i64, .json⟩, false⟩
    let w : World := { handler := .controller { config := {} } }
    (w.handler = .controller { config := {} } ∧ h.namespaces.encode h.ns = .ok [] ∧
      op.blocking = false) ∧
    ((∀ e, (((request 1 h op).run w).1 = .error (.failed e) ∧ e.isMismatch = true) ↔
        op.requestType.validate h.state h.kind op.payload = .error e) ∧
    (∀ e, op.requestType.validate h.state h.kind op.payload = .error e →
        (request 1 h op).run w = (.error (.failed e), w) ∧
        ((¬op.requestType.Fits h.kind ∧ e = .kindMismatch h.state h.kind op.requestType) ∨
          (op.requestType.Fits h.kind ∧ op.requestType.shape ≠ op.payload.shape ∧
            e = .payloadMismatch op.requestType op.requestType.shape op.payload.shape))) ∧
    (op.requestType.validate h.state h.kind op.payload = .ok () →
        (({ config := {} } : Controller Ticket).closed = true →
          (request 1 h op).run w = (.error (.failed .closed), w)) ∧
        (({ config := {} } : Controller Ticket).closed = false →
          ({ config := {} } : Controller Ticket).current = none →
          (request 1 h op).run w = (.error (.failed .noCurrentKey), w))) ∧
    (∀ e, ((request 1 h op).run w).1 = .error (.failed e) →
        ((request 1 h op).run w).2 = w ∨ ((request 1 h op).run w).2 = ((makeRoom 0).run w).2) ∧
    (∀ (cfg : Config) (m : Machine Ticket), Machine.Reachable cfg m →
        ∀ comp ∈ m.ctl.finished ++ m.taken, comp.refused = false) ∧
    (∀ (fuel' : Nat) (ps : List Nat) (s : List Nat × World),
        Relation.ReflTransGen Next (ps, ((shutDown fuel').run w).2) s →
        ∀ (h' : Handle) (op' : Operation) (ns' : Bytes), h'.namespaces.encode h'.ns = .ok ns' →
          op'.requestType.validate h'.state h'.kind op'.payload = .ok () →
          (request 1 h' op').run s.2 = (.error (.failed .closed), s.2))) :=
  ⟨⟨rfl, rfl, rfl⟩, @submission_errors_synchronous 0 _ _ _ _ _ rfl rfl rfl⟩

end OrderedState
