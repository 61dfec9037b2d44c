import OrderedState.Proofs.Exclusion

/-!
# Every request is kept once

A request in flight passes, by hand-over and never by copy, from key ownership to its pair's
queue, the ready buffer, a batch at the executor, the mailbox and the collected completions,
until the processing thread takes its completion. This module counts it along the way.

* `Machine.Accounted`: every request ever submitted has had its completion taken or is in flight,
  exactly once. A transition takes one completion, whose request leaves the in-flight table, or
  submits one request under the next id, or touches neither (`Step.ledger`); so every reachable
  machine is accounted (`Reachable.accounted`).
* `Machine.Custody` collects what holds whenever no continuation is running: every request in
  flight sits in exactly one place; each record's pending count is its number of requests in
  flight; the controller's counters add up to the in-flight count; an idle controller owns no
  key and has no pair busy; every submitted request is waiting to run or has exactly one
  completion; the completion taken next belongs to a request in flight, so none is ever
  skipped; and the executor makes one completion per request of a batch, in batch order.

The pending count is lowered only after a completion's continuations have run, so inside them
it counts the completions being processed too (`Machine.outstanding`); at a moment with no
continuation running that part is zero.
-/

namespace OrderedState

variable {τ : Type}

/-- Summing lengths over a list counts the concatenation. -/
theorem foldl_add_length {α β : Type} (g : α → List β) (l : List α) (n : Nat) :
    l.foldl (fun k e => k + (g e).length) n = n + (l.flatMap g).length := by
  induction l generalizing n with
  | nil => rfl
  | cons x rest ih =>
    rw [List.foldl_cons, ih, List.flatMap_cons, List.length_append]
    omega

namespace Controller

/-- The ids of the requests in flight the store has not answered yet: parked behind an earlier
record, waiting behind their pair's issued request, or ready. -/
def unrun (c : Controller τ) : List Nat :=
  c.parked.map (·.2.id) ++ c.waiting.map (·.id) ++ c.ready.map (·.id)

/-- A request in flight is placed where the store has not answered it, or among the finished
completions. -/
theorem placedIds_eq (c : Controller τ) : c.placedIds = c.unrun ++ c.finished.map (·.id) := by
  simp [placedIds, unrun, issuedIds, List.append_assoc]

theorem blockedCount_eq (c : Controller τ) : c.blockedCount = c.parked.length := by
  simp only [blockedCount, Ownership.parkedCount, parked]
  exact (foldl_add_length (fun (e : Nat × KeyOwner) => e.2.parked) _ 0).trans (Nat.zero_add _)

theorem queuedCount_eq (c : Controller τ) : c.queuedCount = c.waiting.length := by
  simp only [queuedCount, PairQueues.waitingCount, waiting]
  exact (foldl_add_length (fun (e : Pair × PairQueue) => e.2.waiting) _ 0).trans (Nat.zero_add _)

theorem submit_open {c c' : Controller τ} {now : Nat} {state : String} {kind : StateKind}
    {rt : RequestType} {ns : Bytes} {payload : Payload} {promise : τ}
    (h : c.submit now state kind rt ns payload promise = .ok c') : c.closed = false := by
  cases hc : c.closed
  · rfl
  · simp [submit, hc] at h

end Controller

namespace Machine

variable {m m' : Machine τ}

/-! ## The ledger of submitted requests -/

/-- What a transition does to the requests submitted so far: it takes the completion of a
request in flight, which leaves the in-flight table; or it submits a request under the next id;
or it leaves the completions taken, the in-flight table and the next id as they were. -/
theorem Step.ledger (hs : Step m m') :
    (m'.taken = m.taken ∧ m'.ctl.inFlight = m.ctl.inFlight ∧ m'.ctl.nextId = m.ctl.nextId) ∨
    (∃ comp f, m.ctl.inFlight.get? comp.id = some f ∧ m'.taken = m.taken ++ [comp] ∧
      m'.ctl.inFlight = m.ctl.inFlight.erase comp.id ∧ m'.ctl.nextId = m.ctl.nextId) ∨
    (∃ f, m'.taken = m.taken ∧ m'.ctl.inFlight = m.ctl.inFlight.set m.ctl.nextId f ∧
      m'.ctl.nextId = m.ctl.nextId + 1) := by
  cases hs with
  | internal hi =>
    cases hi with
    | flush => exact .inl ⟨rfl, Controller.flush_inFlight _, Controller.flush_nextId _⟩
    | execute i batch hb =>
      obtain ⟨sent, mailbox, store, he⟩ := m.ctl.execute_eq_with i
      exact .inl ⟨rfl, by rw [he], by rw [he]⟩
    | receive => exact .inl ⟨rfl, rfl, rfl⟩
    | begin now comp f previous c hb =>
      obtain ⟨-, -, -, -, hf, -, rfl⟩ := Controller.beginCompletion_eq_some hb
      exact .inr (.inl ⟨comp, f, hf, rfl, Controller.releasePair_inFlight ..,
        Controller.releasePair_nextId ..⟩)
    | finish now fr rest hfr =>
      obtain ⟨o, qs, a, s, he⟩ := m.ctl.endCompletion_eq_with now fr.record fr.previous
      exact .inl ⟨rfl, by rw [he], by rw [he]⟩
    | nestedKey key _ => exact .inl ⟨rfl, rfl, rfl⟩
  | setKey key => exact .inl ⟨rfl, rfl, rfl⟩
  | submit now state kind rt ns payload promise c hsub =>
    obtain ⟨ctx, -, -, -, hid, hfl, -, -⟩ :=
      Controller.submit_fields (Controller.submit_open hsub) hsub
    exact .inr (.inr ⟨_, rfl, hfl, hid⟩)
  | shut => exact .inl ⟨rfl, rfl, rfl⟩

/-- Every request submitted so far has had its completion taken or is in flight, once. -/
def Accounted (m : Machine τ) : Prop :=
  (m.taken.map (·.id) ++ m.ctl.inFlight.keys).Perm (List.range m.ctl.nextId)

/-- No request in flight has the next id. -/
theorem Inv.nextId_free (h : m.Inv []) : m.ctl.inFlight.get? m.ctl.nextId = none := by
  cases hg : m.ctl.inFlight.get? m.ctl.nextId with
  | none => rfl
  | some f => exact absurd (h.entry _ f hg).1 (Nat.lt_irrefl _)

/-- The step lemma of the ledger. -/
theorem Inv.accounted_step (h : m.Inv []) (ha : m.Accounted) (hs : Step m m') :
    m'.Accounted := by
  unfold Accounted
  rcases Step.ledger hs with ⟨ht, hf, hn⟩ | ⟨comp, f, hcf, ht, hf, hn⟩ | ⟨f, ht, hf, hn⟩
  · rw [ht, hf, hn]
    exact ha
  · -- the completed request moves from the in-flight table to the completions taken
    have hkeys : m.ctl.inFlight.keys.Perm (comp.id :: (m.ctl.inFlight.erase comp.id).keys) :=
      (Table.perm_cons_erase h.inFlight_keys hcf).map Prod.fst
    rw [ht, hf, hn]
    simp only [List.map_append, List.map_cons, List.map_nil, List.append_assoc,
      List.singleton_append]
    exact (hkeys.symm.append_left _).trans ha
  · -- the new request takes the next id
    rw [ht, hf, hn, Table.set_eq_append _ h.nextId_free, Table.keys_append, List.range_succ,
      ← List.append_assoc]
    exact ha.append_right _

/-- The run lemma of the ledger. -/
theorem Reachable.accounted {cfg : Config} (h : Reachable cfg m) : m.Accounted := by
  induction h with
  | start => exact List.Perm.refl _
  | step hm hs ih => exact hm.inv.accounted_step ih hs

/-! ## Where the requests are when no continuation runs -/

/-- The bookkeeping of the controller at a moment when no continuation is running. -/
structure Custody (m : Machine τ) : Prop where
  /-- A request in flight sits in exactly one place; nothing else sits anywhere. -/
  placed_once : ∀ id, m.ctl.placedIds.count id = if id ∈ m.ctl.inFlight.keys then 1 else 0
  /-- A record's pending count is its number of requests in flight. -/
  pending_eq : ∀ r, ((m.ctl.ownership.records.get? r).map (·.pending)).getD 0 =
    m.ctl.inFlight.countP (·.2.record = r)
  /-- A record has an entry exactly while it has a request in flight. -/
  record_iff : ∀ r, (m.ctl.ownership.records.get? r).isSome ↔
    0 < m.ctl.inFlight.countP (·.2.record = r)
  /-- The in-flight count is the blocked, queued and buffered counts and the requests handed to
  the executor whose completions are not yet taken. -/
  count_eq : m.ctl.inFlightCount = m.ctl.blockedCount + m.ctl.queuedCount +
    m.ctl.bufferedCount + (m.ctl.sent.flatten.length + m.ctl.finished.length)
  /-- With nothing in flight no key is owned and no pair is busy. -/
  idle : m.ctl.inFlight = [] → m.ctl.ownership.busyKeys = 0 ∧ m.ctl.queues.activePairs = 0
  /-- Every submitted request is waiting to run, or has its one completion. -/
  completed_once : (m.ctl.unrun ++ (m.ctl.finished ++ m.taken).map (·.id)).Perm
    (List.range m.ctl.nextId)
  /-- The completion taken next belongs to a request in flight. -/
  known : ∀ comp rest, m.ctl.completed = comp :: rest → ∃ f,
    m.ctl.inFlight.get? comp.id = some f ∧
    Controller.nextCompletion m.ctl.inFlight m.ctl.completed = some (comp, f, rest)
  /-- A batch at the executor gives one completion per request, in batch order. -/
  one_each : ∀ batch ∈ m.ctl.sent, ∀ s : Store,
    (Controller.completionsOf batch (s.executeBatch batch).1).map (·.id) = batch.map (·.id)

theorem Inv.placed_perm (h : m.Inv []) : m.ctl.placedIds.Perm m.ctl.inFlight.keys := by
  simpa using h.placed

/-- With no continuation running, a record's outstanding requests are those in flight. -/
theorem Inv.pending_quiet (h : m.Inv []) (hq : m.frames = []) (r : Nat) :
    ((m.ctl.ownership.records.get? r).map (·.pending)).getD 0 =
      m.ctl.inFlight.countP (·.2.record = r) := by
  simp [h.pending r, outstanding, hq]

/-- A record with nothing in flight has no entry, once no continuation runs. -/
theorem Inv.record_of_pending (h : m.Inv []) (hq : m.frames = []) (r : Nat) :
    (m.ctl.ownership.records.get? r).isSome ↔ 0 < m.ctl.inFlight.countP (·.2.record = r) := by
  rw [← h.pending_quiet hq r]
  cases he : m.ctl.ownership.records.get? r with
  | none => simp
  | some e => simpa using h.pending_pos r e he

theorem Inv.count_eq (h : m.Inv []) :
    m.ctl.inFlightCount = m.ctl.blockedCount + m.ctl.queuedCount + m.ctl.bufferedCount +
      (m.ctl.sent.flatten.length + m.ctl.finished.length) := by
  have hlen := h.placed_perm.length_eq
  simp only [Controller.placedIds, Controller.issuedIds, Controller.ready, List.length_append,
    List.length_map, Table.keys] at hlen
  rw [Controller.inFlightCount, Controller.blockedCount_eq, Controller.queuedCount_eq,
    Controller.bufferedCount]
  omega

/-- An idle controller owns no key and has no pair busy: an owner is a record with a pending
request, and a busy pair has its issued request in flight. -/
theorem Inv.idle (h : m.Inv []) (hq : m.frames = []) (hd : m.ctl.inFlight = []) :
    m.ctl.ownership.busyKeys = 0 ∧ m.ctl.queues.activePairs = 0 := by
  constructor
  · rw [Ownership.busyKeys, List.length_eq_zero_iff, List.eq_nil_iff_forall_not_mem]
    rintro ⟨k, ko⟩ hmem
    obtain ⟨e, he, -⟩ :=
      h.owner_entry k ko (Table.get?_eq_some_of_mem h.owners_keys hmem)
    have hpend := h.pending_quiet hq ko.record
    rw [he, hd] at hpend
    have hpos := h.pending_pos _ e he
    simp only [Option.map_some, Option.getD_some, List.countP_nil] at hpend
    omega
  · rw [PairQueues.activePairs, List.length_eq_zero_iff, List.eq_nil_iff_forall_not_mem]
    rintro ⟨p, q⟩ hmem
    obtain ⟨-, f, hf, -⟩ := h.queue_issued p q (Table.get?_eq_some_of_mem h.queues_keys hmem)
    rw [hd] at hf
    simp at hf

/-- The completion at the front of the collected ones is the one taken next. -/
theorem Inv.known (h : m.Inv []) {comp : Completion} {rest : List Completion}
    (hc : m.ctl.completed = comp :: rest) : ∃ f, m.ctl.inFlight.get? comp.id = some f ∧
      Controller.nextCompletion m.ctl.inFlight m.ctl.completed = some (comp, f, rest) := by
  have hmem : comp.id ∈ m.ctl.placedIds ++ ([] : List Request).map (·.id) := by
    simp [Controller.placedIds, Controller.issuedIds, Controller.finished, hc]
  obtain ⟨f, hf⟩ := h.inFlight_of_placed hmem
  exact ⟨f, hf, by simp [hc, Controller.nextCompletion, hf]⟩

/-- Every submitted request is waiting to run, or has its one completion: finished, or taken. -/
theorem Inv.completed_once (h : m.Inv []) (ha : m.Accounted) :
    (m.ctl.unrun ++ (m.ctl.finished ++ m.taken).map (·.id)).Perm (List.range m.ctl.nextId) := by
  rw [List.map_append, ← List.append_assoc, ← Controller.placedIds_eq]
  exact ((h.placed_perm.append_right _).trans List.perm_append_comm).trans ha

end Machine

open Machine

/-- At every reachable moment with no continuation running, the controller keeps each request
once: every request in flight is in exactly one place, the pending counts and the controller's
counters agree with the in-flight table, an idle controller holds no ownership or pair entry,
every submitted request is waiting to run or has exactly one completion, and the completion
taken next is never one of an unknown request. -/
theorem requests_accounted_once {cfg : Config} {m : Machine τ} (hm : Reachable cfg m)
    (hq : m.frames = []) : m.Custody := by
  have h := hm.inv
  refine ⟨fun id => ?_, h.pending_quiet hq, h.record_of_pending hq, h.count_eq,
    h.idle hq, h.completed_once hm.accounted, fun comp rest hc => h.known hc,
    fun batch _ s => ?_⟩
  · exact (h.placed_perm.count_eq id).trans (List.Nodup.count h.inFlight_keys)
  · exact ids_completionsOf batch _ (Store.length_executeBatch s batch)

/-- With one read of record 0 issued, one waiting behind it on its pair and one of record 1
parked, each request is in exactly one place and counted once. -/
theorem contested_requests_accounted :
    Reachable {} Machine.contested ∧ Machine.contested.frames = [] ∧
    Machine.contested.ctl.issuedIds = [0] ∧ Machine.contested.ctl.waiting.map (·.id) = [1] ∧
    Machine.contested.Custody :=
  ⟨Machine.reachable_contested, rfl, by decide +kernel, by decide +kernel,
    requests_accounted_once Machine.reachable_contested rfl⟩

end OrderedState
