import OrderedState.Controller.Basic
import OrderedState.Proofs.Table

/-!
# Runs of the controller

The controller is driven by one processing thread and a pool of executor threads, and every
transition of `Controller.Basic` is one lock section of the code. A run is any sequence of
transitions the two sides can take:

* the processing thread starts records, submits requests, flushes, collects completions and
  takes them one at a time; taking a completion runs the request's continuations, which may do
  all of this again, before the completion is counted against its record;
* the executor runs any batch it holds, whenever it likes, and delivers its completions.

Completions whose continuations are running form a stack, the innermost ending first. A
`Machine` is the controller with that stack and with the history a run leaves behind: the
requests the store ran, in order, and the completions the processing thread took, in order.
`Step` lists the transitions and `Reachable` the states a run from a fresh controller reaches.
`poll`, `yield_once`, `wait_for`, `drain_inflight` and back-pressure waits are sequences of
these transitions, so what holds of every reachable machine holds along every run of them.

The second half names the places a request in flight can be (parked behind an earlier record,
waiting behind its pair's issued request, ready in the buffer or a batch, finished in a
completion not yet taken) and says how each transition moves requests between them.
-/

namespace OrderedState

/-- A completion whose continuations are running: the completing request's record, and the
record context to restore when they are done. -/
structure Frame where
  record : Nat
  previous : Option RecordContext

/-- The controller, the completions being processed (innermost first), and the history of the
run. -/
structure Machine (τ : Type) where
  ctl : Controller τ
  frames : List Frame := []
  /-- Every request the store has run, in order. -/
  ran : List Request := []
  /-- Every completion the processing thread has taken, in order. -/
  taken : List Completion := []

namespace Machine

variable {τ : Type}

/-- A fresh controller with configuration `cfg`. -/
def start (cfg : Config) : Machine τ := { ctl := { config := cfg } }

/-- The record contexts the processing thread can be in or return to: the current one and
those saved by the completions being processed. -/
def contexts (m : Machine τ) : List RecordContext :=
  (m.ctl.current :: m.frames.map (·.previous)).filterMap id

theorem mem_contexts {m : Machine τ} {ctx : RecordContext} :
    ctx ∈ m.contexts ↔ m.ctl.current = some ctx ∨ ∃ fr ∈ m.frames, fr.previous = some ctx := by
  simp [contexts, eq_comm]

/-- Once the innermost completion ends, the contexts left are among those before. -/
theorem contexts_pop {m : Machine τ} {fr : Frame} {rest : List Frame} (hfr : m.frames = fr :: rest)
    {ctx : RecordContext} (h : fr.previous = some ctx ∨ ∃ fr' ∈ rest, fr'.previous = some ctx) :
    ctx ∈ m.contexts := by
  rcases h with h | ⟨fr', hfr', h⟩
  · exact mem_contexts.mpr (.inr ⟨fr, by rw [hfr]; exact List.mem_cons_self .., h⟩)
  · exact mem_contexts.mpr (.inr ⟨fr', by rw [hfr]; exact List.mem_cons_of_mem _ hfr', h⟩)

/-- The transitions other than starting a record or submitting at the top level: the
executor's, the processing thread's flushing and completion processing, and records started
by continuations. -/
inductive Internal : Machine τ → Machine τ → Prop where
  | flush (m : Machine τ) : Internal m { m with ctl := m.ctl.flush }
  | execute (m : Machine τ) (i : Nat) (batch : List Request) (h : m.ctl.sent[i]? = some batch) :
      Internal m { m with ctl := m.ctl.execute i, ran := m.ran ++ batch }
  | receive (m : Machine τ) : Internal m { m with ctl := m.ctl.receive }
  | begin (m : Machine τ) (now : Nat) (comp : Completion) (f : InFlight τ)
      (previous : Option RecordContext) (c : Controller τ)
      (h : m.ctl.beginCompletion now = some (comp, f, previous, c)) :
      Internal m { m with ctl := c, frames := ⟨f.record, previous⟩ :: m.frames,
                          taken := m.taken ++ [comp] }
  | finish (m : Machine τ) (now : Nat) (fr : Frame) (rest : List Frame)
      (h : m.frames = fr :: rest) :
      Internal m { m with ctl := m.ctl.endCompletion now fr.record fr.previous, frames := rest }
  | nestedKey (m : Machine τ) (key : Nat) (h : m.frames ≠ []) :
      Internal m { m with ctl := m.ctl.setCurrentKey key }

/-- Every transition of a run. -/
inductive Step : Machine τ → Machine τ → Prop where
  | internal {m m' : Machine τ} (h : Internal m m') : Step m m'
  | setKey (m : Machine τ) (key : Nat) : Step m { m with ctl := m.ctl.setCurrentKey key }
  | submit (m : Machine τ) (now : Nat) (state : String) (kind : StateKind) (rt : RequestType)
      (ns : Bytes) (payload : Payload) (promise : τ) (c : Controller τ)
      (h : m.ctl.submit now state kind rt ns payload promise = .ok c) :
      Step m { m with ctl := c }
  | shut (m : Machine τ) : Step m { m with ctl := m.ctl.shut }

/-- The machines a run from a fresh controller with configuration `cfg` reaches. -/
inductive Reachable (cfg : Config) : Machine τ → Prop where
  | start : Reachable cfg (start cfg)
  | step {m m' : Machine τ} : Reachable cfg m → Step m m' → Reachable cfg m'

/-! ## Runs as data -/

/-- A transition named by what the processing thread or the executor does; `setKey` starts a
record at the top level or inside a continuation. -/
inductive Move (τ : Type) where
  | flush
  | execute (i : Nat)
  | receive
  | begin (now : Nat)
  | finish (now : Nat)
  | setKey (key : Nat)
  | submit (now : Nat) (state : String) (kind : StateKind) (rt : RequestType) (ns : Bytes)
      (payload : Payload) (promise : τ)
  | shut

/-- Carries out a move, when it applies: a batch to run must exist, a completion to take must
be collected, a completion to end must be in progress, and a submission must be accepted. -/
def move? (m : Machine τ) : Move τ → Option (Machine τ)
  | .flush => some { m with ctl := m.ctl.flush }
  | .execute i => m.ctl.sent[i]?.map fun batch =>
      { m with ctl := m.ctl.execute i, ran := m.ran ++ batch }
  | .receive => some { m with ctl := m.ctl.receive }
  | .begin now => (m.ctl.beginCompletion now).map fun (comp, f, previous, c) =>
      { m with ctl := c, frames := ⟨f.record, previous⟩ :: m.frames, taken := m.taken ++ [comp] }
  | .finish now =>
    match m.frames with
    | [] => none
    | fr :: rest =>
      some { m with ctl := m.ctl.endCompletion now fr.record fr.previous, frames := rest }
  | .setKey key => some { m with ctl := m.ctl.setCurrentKey key }
  | .submit now state kind rt ns payload promise =>
    (m.ctl.submit now state kind rt ns payload promise).toOption.map fun c => { m with ctl := c }
  | .shut => some { m with ctl := m.ctl.shut }

/-- Carries out moves in order, as long as each applies. -/
def run? (m : Machine τ) : List (Move τ) → Option (Machine τ)
  | [] => some m
  | mv :: rest => (m.move? mv).bind (·.run? rest)

/-- Whether a move is the executor's, or the processing thread's flushing and completion
processing. -/
def Move.isInternal : Move τ → Bool
  | .flush | .execute _ | .receive | .begin _ | .finish _ => true
  | .setKey _ | .submit .. | .shut => false

theorem internal_of_move? {m m' : Machine τ} {mv : Move τ} (h : m.move? mv = some m')
    (hi : mv.isInternal = true) : Internal m m' := by
  cases mv with
  | flush => cases h; exact .flush m
  | execute i =>
    obtain ⟨batch, hb, rfl⟩ := Option.map_eq_some_iff.mp h
    exact .execute m i batch hb
  | receive => cases h; exact .receive m
  | begin now =>
    obtain ⟨⟨comp, f, previous, c⟩, hb, rfl⟩ := Option.map_eq_some_iff.mp h
    exact .begin m now comp f previous c hb
  | finish now =>
    cases hfr : m.frames with
    | nil => simp [move?, hfr] at h
    | cons fr rest =>
      simp only [move?, hfr, Option.some.injEq] at h
      cases h
      exact .finish m now fr rest hfr
  | setKey | submit | shut => cases hi

theorem step_of_move? {m m' : Machine τ} {mv : Move τ} (h : m.move? mv = some m') : Step m m' := by
  cases mv with
  | flush | execute | receive | begin | finish => exact .internal (internal_of_move? h rfl)
  | setKey key => cases h; exact .setKey m key
  | submit now state kind rt ns payload promise =>
    obtain ⟨c, hc, rfl⟩ := Option.map_eq_some_iff.mp h
    have hok : m.ctl.submit now state kind rt ns payload promise = .ok c := by
      revert hc
      cases m.ctl.submit now state kind rt ns payload promise <;> simp [Except.toOption]
    exact .submit m now state kind rt ns payload promise c hok
  | shut => cases h; exact .shut m

/-- A run carried out from a reachable machine ends in a reachable machine. -/
theorem Reachable.run? {cfg : Config} {m m' : Machine τ} (hm : Reachable cfg m)
    {mvs : List (Move τ)} (h : m.run? mvs = some m') : Reachable cfg m' := by
  induction mvs generalizing m with
  | nil => cases h; exact hm
  | cons mv rest ih =>
    obtain ⟨m₁, h₁, h₂⟩ := Option.bind_eq_some_iff.mp h
    exact ih (.step hm (step_of_move? h₁)) h₂

end Machine


theorem Store.length_executeBatch (s : Store) (batch : List Request) :
    (s.executeBatch batch).1.length = batch.length := by
  induction batch generalizing s with
  | nil => rfl
  | cons r rest ih => simp [Store.executeBatch, ih]

/-- A batch's completions carry the batch's ids, in order. -/
theorem ids_completionsOf (batch : List Request) (results : List (Except StateError Response))
    (h : results.length = batch.length) :
    (Controller.completionsOf batch results).map (·.id) = batch.map (·.id) := by
  have hfst := List.map_fst_zip (show batch.length ≤ results.length by omega)
  calc (Controller.completionsOf batch results).map (·.id)
      = ((batch.zip results).map Prod.fst).map (·.id) := by
        simp [Controller.completionsOf, List.map_map, Function.comp_def]
    _ = batch.map (·.id) := by rw [hfst]

theorem perm_cons_eraseIdx {α : Type} {l : List α} {i : Nat} {x : α} (h : l[i]? = some x) :
    l.Perm (x :: l.eraseIdx i) := by
  induction l generalizing i with
  | nil => simp at h
  | cons y ys ih =>
    cases i with
    | zero =>
      simp only [List.getElem?_cons_zero, Option.some.injEq] at h
      simp [h]
    | succ j =>
      simp only [List.getElem?_cons_succ] at h
      simp only [List.eraseIdx_cons_succ]
      exact ((ih h).cons y).trans (List.Perm.swap x y _)

namespace Ownership

/-! ## Claiming and completing at a key -/

/-- The records after counting one more request of `record`, whose key is `key` if it had no
entry. -/
def countOne (o : Ownership) (record key : Nat) : Table Nat RecordEntry :=
  let entry := (o.records.get? record).getD ⟨key, 0⟩
  o.records.set record { entry with pending := entry.pending + 1 }

theorem countOne_get?_self (o : Ownership) (record key : Nat) :
    (o.countOne record key).get? record =
      some { (o.records.get? record).getD ⟨key, 0⟩ with
        pending := ((o.records.get? record).getD ⟨key, 0⟩).pending + 1 } := by
  simp [countOne]

theorem countOne_get?_ne (o : Ownership) {record r : Nat} (key : Nat) (h : record ≠ r) :
    (o.countOne record key).get? r = o.records.get? r := by
  simp [countOne, Table.get?_set_ne _ _ h]

theorem claim_of_free {o : Ownership} {record : Nat} {r : Request}
    (h : o.owners.get? r.key = none) :
    o.claim record r =
      ({ records := o.countOne record r.key, owners := o.owners.set r.key ⟨record, []⟩ }, some r) := by
  simp [claim, countOne, h]

theorem claim_of_owner {o : Ownership} {record : Nat} {r : Request} {ko : KeyOwner}
    (h : o.owners.get? r.key = some ko) (hr : ko.record = record) :
    o.claim record r = ({ o with records := o.countOne record r.key }, some r) := by
  simp [claim, countOne, h, hr]

theorem claim_of_parked {o : Ownership} {record : Nat} {r : Request} {ko : KeyOwner}
    (h : o.owners.get? r.key = some ko) (hr : ko.record ≠ record) :
    o.claim record r =
      ({ records := o.countOne record r.key,
         owners := o.owners.set r.key { ko with parked := ko.parked ++ [(record, r)] } }, none) := by
  simp [claim, countOne, h, hr]

theorem complete_of_later {o : Ownership} {record : Nat} {e : RecordEntry}
    (he : o.records.get? record = some e) (hp : 1 < e.pending) :
    o.complete record =
      ({ o with records := o.records.set record { e with pending := e.pending - 1 } }, []) := by
  simp [complete, he, hp]

theorem complete_of_free {o : Ownership} {record : Nat} {e : RecordEntry} {ko : KeyOwner}
    (he : o.records.get? record = some e) (hp : ¬1 < e.pending)
    (ho : o.owners.get? e.key = some ko) (hk : ko.parked = []) :
    o.complete record =
      ({ records := o.records.erase record, owners := o.owners.erase e.key }, []) := by
  simp [complete, he, hp, ho, hk]

theorem complete_of_pass {o : Ownership} {record : Nat} {e : RecordEntry} {ko : KeyOwner}
    {next : Nat} {x : Request} {tail : List (Nat × Request)}
    (he : o.records.get? record = some e) (hp : ¬1 < e.pending)
    (ho : o.owners.get? e.key = some ko) (hk : ko.parked = (next, x) :: tail) :
    o.complete record =
      ({ records := o.records.erase record,
         owners := o.owners.set e.key ⟨next, ko.parked.dropWhile (fun p => p.1 = next)⟩ },
       (ko.parked.takeWhile fun p => p.1 = next).map (·.2)) := by
  simp [complete, he, hp, ho, hk]

end Ownership

namespace PairQueues

theorem release_of_last {qs : PairQueues} {key : Nat} {state : String} {q : PairQueue}
    (h : qs.queues.get? (key, state) = some q) (hw : q.waiting = []) :
    qs.release key state = (⟨qs.queues.erase (key, state)⟩, none) := by
  simp [release, h, hw]

theorem release_of_next {qs : PairQueues} {key : Nat} {state : String} {q : PairQueue}
    {next : Request} {rest : List Request}
    (h : qs.queues.get? (key, state) = some q) (hw : q.waiting = next :: rest) :
    qs.release key state = (⟨qs.queues.set (key, state) ⟨next.sequence, rest⟩⟩, some next) := by
  simp [release, h, hw]

end PairQueues

namespace Controller

variable {τ : Type}

/-! ## Where a request in flight sits -/

/-- Requests parked behind an earlier record on their key, with their records. -/
def parked (c : Controller τ) : List (Nat × Request) := c.ownership.owners.flatMap (·.2.parked)

/-- Requests waiting behind the issued request of their pair. -/
def waiting (c : Controller τ) : List Request := c.queues.queues.flatMap (·.2.waiting)

/-- Issued requests the store has not run: the ready buffer, then the batches at the
executor. -/
def ready (c : Controller τ) : List Request := c.active ++ c.sent.flatten

/-- Completions of requests the store has run, not yet taken: the mailbox, then the collected
ones. -/
def finished (c : Controller τ) : List Completion := c.mailbox.flatten ++ c.completed

/-- The ids of the issued requests: ready or finished. -/
def issuedIds (c : Controller τ) : List Nat := c.ready.map (·.id) ++ c.finished.map (·.id)

/-- The id of every request in flight, once for each place it sits. -/
def placedIds (c : Controller τ) : List Nat :=
  c.parked.map (·.2.id) ++ c.waiting.map (·.id) ++ c.issuedIds

/-- The requests key ownership has let through: the issued slot and the waiting line of every
pair, and the issued requests. -/
def letThrough (c : Controller τ) : List Nat :=
  c.queues.queues.map (·.2.issued) ++ c.waiting.map (·.id) ++ c.issuedIds

/-! ## Flushing, running and collecting -/

theorem flush_eq (c : Controller τ) :
    c.flush = { c with active := [], activeSince := none }.dispatch c.active := rfl

/-- A flush sends the ready buffer on: to the executor, or, once closed, straight to the
completions. Either way the issued requests stay the same. -/
theorem issuedIds_flush (c : Controller τ) : c.flush.issuedIds.Perm c.issuedIds := by
  simp only [flush_eq, dispatch]
  split
  · rename_i hnil
    simp only [List.isEmpty_iff] at hnil
    simp [issuedIds, ready, finished, hnil]
  · split
    · refine List.perm_iff_count.mpr fun a => ?_
      simp [issuedIds, ready, finished, List.count_append, Function.comp_def]
      omega
    · refine List.perm_iff_count.mpr fun a => ?_
      simp [issuedIds, ready, finished, List.count_append]
      omega

/-- Flushing changes only the ready buffer, the batches and the collected completions. -/
theorem flush_eq_with (c : Controller τ) :
    ∃ sent completed, c.flush = { c with active := [], activeSince := none, sent, completed } := by
  simp only [flush_eq, dispatch]
  split
  · exact ⟨c.sent, c.completed, rfl⟩
  · split
    · exact ⟨c.sent, _, rfl⟩
    · exact ⟨_, c.completed, rfl⟩

theorem ready_flush_subset (c : Controller τ) : ∀ r ∈ c.flush.ready, r ∈ c.ready := by
  intro r hr
  simp only [flush_eq, dispatch] at hr
  split at hr
  · simp only [ready, List.nil_append] at hr
    exact List.mem_append_right _ hr
  · split at hr
    · simp only [ready, List.nil_append] at hr
      exact List.mem_append_right _ hr
    · simp only [ready, List.nil_append, List.flatten_append, List.flatten_cons,
        List.flatten_nil, List.append_nil, List.mem_append] at hr
      rcases hr with hr | hr
      · exact List.mem_append_right _ hr
      · exact List.mem_append_left _ hr

theorem execute_eq {c : Controller τ} {i : Nat} {batch : List Request} (h : c.sent[i]? = some batch) :
    c.execute i = { c with sent := c.sent.eraseIdx i }.runBatch batch := by
  simp [execute, h]

/-- Running a batch changes only the batches, the mailbox and the store. -/
theorem execute_eq_with (c : Controller τ) (i : Nat) :
    ∃ sent mailbox store, c.execute i = { c with sent, mailbox, store } := by
  unfold execute
  split
  · exact ⟨_, _, _, rfl⟩
  · exact ⟨c.sent, c.mailbox, c.store, rfl⟩

/-- The executor running a batch turns its requests into completions with the same ids. -/
theorem issuedIds_execute {c : Controller τ} {i : Nat} {batch : List Request}
    (h : c.sent[i]? = some batch) : (c.execute i).issuedIds.Perm c.issuedIds := by
  have hsent := (perm_cons_eraseIdx h).flatten.map (·.id)
  have hids := ids_completionsOf batch _ (Store.length_executeBatch c.store batch)
  refine List.perm_iff_count.mpr fun a => ?_
  have hcount := hsent.count_eq a
  simp only [List.flatten_cons, List.map_append, List.count_append] at hcount
  simp only [execute_eq h, runBatch, issuedIds, ready, finished, List.flatten_append,
    List.flatten_cons, List.flatten_nil, List.append_nil, List.map_append, List.count_append, hids]
  omega

theorem ready_execute_subset {c : Controller τ} {i : Nat} {batch : List Request}
    (h : c.sent[i]? = some batch) : ∀ r ∈ (c.execute i).ready, r ∈ c.ready := by
  intro r hr
  simp only [execute_eq h, runBatch, ready, List.mem_append] at hr ⊢
  rcases hr with hr | hr
  · exact .inl hr
  · exact .inr (((perm_cons_eraseIdx h).flatten.mem_iff).mpr
      (List.mem_flatten.mpr (by
        obtain ⟨l, hl, hrl⟩ := List.mem_flatten.mp hr
        exact ⟨l, List.mem_cons_of_mem _ hl, hrl⟩)))

theorem issuedIds_receive (c : Controller τ) : c.receive.issuedIds.Perm c.issuedIds := by
  refine List.perm_iff_count.mpr fun a => ?_
  simp only [receive, issuedIds, ready, finished, List.flatten_nil, List.nil_append,
    List.map_append, List.count_append]
  omega

/-! ## Issuing a request at its pair -/

theorem issue_of_idle {c : Controller τ} {now : Nat} {r : Request}
    (h : c.queues.queues.get? (r.key, r.state) = none) :
    c.issue now r = ({ c with queues := ⟨c.queues.queues.set (r.key, r.state) ⟨r.sequence, []⟩⟩ } :
      Controller τ).pushActive now r := by
  simp [issue, PairQueues.enqueue, h]

theorem issue_of_busy {c : Controller τ} {now : Nat} {r : Request} {q : PairQueue}
    (h : c.queues.queues.get? (r.key, r.state) = some q) :
    c.issue now r = { c with queues := ⟨c.queues.queues.set (r.key, r.state)
      { q with waiting := q.waiting ++ [r] }⟩ } := by
  simp [issue, PairQueues.enqueue, h]

/-- Issuing touches only the pair queues and the ready buffer. -/
theorem issue_eq (c : Controller τ) (now : Nat) (r : Request) :
    ∃ qs a s, c.issue now r = { c with queues := qs, active := a, activeSince := s } := by
  cases h : c.queues.queues.get? (r.key, r.state) with
  | none => exact ⟨_, _, _, by rw [issue_of_idle h]; rfl⟩
  | some q => exact ⟨_, _, _, issue_of_busy h⟩

@[simp] theorem issue_inFlight (c : Controller τ) (now : Nat) (r : Request) :
    (c.issue now r).inFlight = c.inFlight := by
  obtain ⟨_, _, _, h⟩ := issue_eq c now r; rw [h]

@[simp] theorem issue_ownership (c : Controller τ) (now : Nat) (r : Request) :
    (c.issue now r).ownership = c.ownership := by
  obtain ⟨_, _, _, h⟩ := issue_eq c now r; rw [h]

@[simp] theorem issue_current (c : Controller τ) (now : Nat) (r : Request) :
    (c.issue now r).current = c.current := by
  obtain ⟨_, _, _, h⟩ := issue_eq c now r; rw [h]

@[simp] theorem issue_nextId (c : Controller τ) (now : Nat) (r : Request) :
    (c.issue now r).nextId = c.nextId := by
  obtain ⟨_, _, _, h⟩ := issue_eq c now r; rw [h]

@[simp] theorem issue_nextRecord (c : Controller τ) (now : Nat) (r : Request) :
    (c.issue now r).nextRecord = c.nextRecord := by
  obtain ⟨_, _, _, h⟩ := issue_eq c now r; rw [h]

@[simp] theorem issue_sent (c : Controller τ) (now : Nat) (r : Request) :
    (c.issue now r).sent = c.sent := by
  obtain ⟨_, _, _, h⟩ := issue_eq c now r; rw [h]

@[simp] theorem issue_finished (c : Controller τ) (now : Nat) (r : Request) :
    (c.issue now r).finished = c.finished := by
  obtain ⟨_, _, _, h⟩ := issue_eq c now r; rw [h]; rfl

@[simp] theorem issue_store (c : Controller τ) (now : Nat) (r : Request) :
    (c.issue now r).store = c.store := by
  obtain ⟨_, _, _, h⟩ := issue_eq c now r; rw [h]

@[simp] theorem issue_closed (c : Controller τ) (now : Nat) (r : Request) :
    (c.issue now r).closed = c.closed := by
  obtain ⟨_, _, _, h⟩ := issue_eq c now r; rw [h]

@[simp] theorem issue_config (c : Controller τ) (now : Nat) (r : Request) :
    (c.issue now r).config = c.config := by
  obtain ⟨_, _, _, h⟩ := issue_eq c now r; rw [h]

/-- Issuing requests in turn touches only the pair queues and the ready buffer. -/
theorem foldl_issue_eq_with (c : Controller τ) (now : Nat) (rs : List Request) :
    ∃ qs a s, rs.foldl (fun c r => c.issue now r) c =
      { c with queues := qs, active := a, activeSince := s } := by
  induction rs generalizing c with
  | nil => exact ⟨c.queues, c.active, c.activeSince, rfl⟩
  | cons r rest ih =>
    obtain ⟨qs, a, s, h⟩ := issue_eq c now r
    obtain ⟨qs', a', s', h'⟩ := ih (c.issue now r)
    refine ⟨qs', a', s', ?_⟩
    rw [List.foldl_cons, h', h]

@[simp] theorem parked_issue (c : Controller τ) (now : Nat) (r : Request) :
    (c.issue now r).parked = c.parked := by
  simp [parked]

/-- A request issued at an idle pair becomes ready; at a busy pair it waits. -/
theorem issue_moves {c : Controller τ} (now : Nat) (r : Request)
    (hk : c.queues.queues.keys.Nodup) :
    (c.queues.queues.get? (r.key, r.state) = none ∧ (c.issue now r).waiting.Perm c.waiting ∧
      (c.issue now r).ready = c.active ++ [r] ++ c.sent.flatten) ∨
    (∃ q, c.queues.queues.get? (r.key, r.state) = some q ∧
      (c.issue now r).waiting.Perm (r :: c.waiting) ∧ (c.issue now r).ready = c.ready) := by
  cases h : c.queues.queues.get? (r.key, r.state) with
  | none =>
    refine .inl ⟨rfl, ?_, by simp [issue_of_idle h, pushActive, ready]⟩
    have hset := Table.flatMap_set_perm hk (r.key, r.state) ⟨r.sequence, []⟩ (·.waiting)
    simpa [waiting, issue_of_idle h, pushActive, Table.erase_eq_self h] using hset
  | some q =>
    refine .inr ⟨q, rfl, ?_, by simp [issue_of_busy h, ready]⟩
    have hset := Table.flatMap_set_perm hk (r.key, r.state)
      { q with waiting := q.waiting ++ [r] } (·.waiting)
    have hold := Table.flatMap_perm_erase hk h (·.waiting)
    have hnew : (c.issue now r).waiting.Perm ((q.waiting ++ [r]) ++
        (c.queues.queues.erase (r.key, r.state)).flatMap (fun e => e.2.waiting)) := by
      simpa [waiting, issue_of_busy h] using hset
    refine hnew.trans ?_
    refine List.perm_iff_count.mpr fun a => ?_
    have := hold.count_eq a
    simp only [waiting, List.count_append, List.count_cons, List.count_nil] at this ⊢
    omega

/-- Issuing places the request once more among the requests in flight. -/
theorem placedIds_issue {c : Controller τ} (now : Nat) (r : Request)
    (hk : c.queues.queues.keys.Nodup) : (c.issue now r).placedIds.Perm (r.id :: c.placedIds) := by
  refine List.perm_iff_count.mpr fun a => ?_
  simp only [placedIds, issuedIds, parked_issue, issue_finished]
  rcases issue_moves now r hk with ⟨-, hw, hr⟩ | ⟨q, -, hw, hr⟩
  · have := (hw.map (·.id)).count_eq a
    rw [hr]
    simp only [ready, List.map_append, List.count_append, List.count_cons, List.map_cons,
      List.map_nil, List.count_nil] at this ⊢
    omega
  · have := (hw.map (·.id)).count_eq a
    rw [hr]
    simp only [List.count_append, List.count_cons, List.map_cons] at this ⊢
    omega

section IssueMembers

variable {c : Controller τ} {now : Nat} {r : Request}

/-- A request waiting at a pair after an issue was waiting before, or is the one issued. -/
theorem mem_waiting_issue (hk : c.queues.queues.keys.Nodup) {x : Request}
    (hx : x ∈ (c.issue now r).waiting) : x ∈ c.waiting ∨ x = r := by
  rcases issue_moves now r hk with ⟨-, hw, -⟩ | ⟨q, -, hw, -⟩
  · exact .inl (hw.mem_iff.mp hx)
  · rcases List.mem_cons.mp (hw.mem_iff.mp hx) with rfl | hx
    · exact .inr rfl
    · exact .inl hx

/-- A ready request after an issue was ready before, or is the one issued. -/
theorem mem_ready_issue (hk : c.queues.queues.keys.Nodup) {x : Request}
    (hx : x ∈ (c.issue now r).ready) : x ∈ c.ready ∨ x = r := by
  rcases issue_moves now r hk with ⟨-, -, hrd⟩ | ⟨q, -, -, hrd⟩
  · rw [hrd] at hx
    simp only [List.mem_append, List.mem_singleton] at hx
    rcases hx with (hx | rfl) | hx
    · exact .inl (List.mem_append_left _ hx)
    · exact .inr rfl
    · exact .inl (List.mem_append_right _ hx)
  · rw [hrd] at hx
    exact .inl hx

/-- Issuing keeps every ready request ready. -/
theorem ready_sub_issue (hk : c.queues.queues.keys.Nodup) {x : Request} (hx : x ∈ c.ready) :
    x ∈ (c.issue now r).ready := by
  rcases issue_moves now r hk with ⟨-, -, hrd⟩ | ⟨q, -, -, hrd⟩
  · rw [hrd]
    simp only [ready, List.mem_append] at hx ⊢
    rcases hx with hx | hx
    · exact .inl (.inl hx)
    · exact .inr hx
  · rwa [hrd]

/-- An issued request after an issue was issued before, or is the one issued. -/
theorem mem_issuedIds_issue (hk : c.queues.queues.keys.Nodup) {id : Nat}
    (hid : id ∈ (c.issue now r).issuedIds) : id ∈ c.issuedIds ∨ id = r.id := by
  simp only [issuedIds, issue_finished, List.mem_append, List.mem_map] at hid
  rcases hid with ⟨x, hx, rfl⟩ | hid
  · rcases mem_ready_issue hk hx with hx | rfl
    · exact .inl (List.mem_append_left _ (List.mem_map_of_mem hx))
    · exact .inr rfl
  · exact .inl (List.mem_append_right _ (by simpa using hid))

/-- Issuing keeps every issued request issued. -/
theorem issuedIds_sub_issue (hk : c.queues.queues.keys.Nodup) {id : Nat}
    (hid : id ∈ c.issuedIds) : id ∈ (c.issue now r).issuedIds := by
  simp only [issuedIds, issue_finished, List.mem_append, List.mem_map] at hid ⊢
  rcases hid with ⟨x, hx, rfl⟩ | hid
  · exact .inl ⟨x, ready_sub_issue hk hx, rfl⟩
  · exact .inr hid

end IssueMembers

/-! ## Submitting -/

/-- Admitting a request issues what key ownership lets through: the request itself, or
nothing when it is parked. -/
theorem claim_eq (c : Controller τ) (now record : Nat) (r : Request) :
    c.claim now record r = (c.ownership.claim record r).2.toList.foldl (fun c r => c.issue now r)
      { c with ownership := (c.ownership.claim record r).1 } := by
  simp only [claim]
  cases c.ownership.claim record r with
  | mk o owned => cases owned <;> rfl

/-- The request a submission of the current record creates: the next id, which is also its
sequence number. -/
def nextRequest (c : Controller τ) (ctx : RecordContext) (state : String) (kind : StateKind)
    (rt : RequestType) (ns : Bytes) (payload : Payload) : Request :=
  { id := c.nextId, key := ctx.key, state, kind, ns, requestType := rt, payload,
    sequence := c.nextId }

@[simp] theorem nextRequest_id (c : Controller τ) (ctx : RecordContext) (state : String)
    (kind : StateKind) (rt : RequestType) (ns : Bytes) (payload : Payload) :
    (c.nextRequest ctx state kind rt ns payload).id = c.nextId := rfl

@[simp] theorem nextRequest_key (c : Controller τ) (ctx : RecordContext) (state : String)
    (kind : StateKind) (rt : RequestType) (ns : Bytes) (payload : Payload) :
    (c.nextRequest ctx state kind rt ns payload).key = ctx.key := rfl

/-- A successful submission counts the new request in flight, passes it through key ownership
and its pair, and may flush the ready buffer. -/
theorem submit_eq_ok {c c' : Controller τ} {now : Nat} {state : String} {kind : StateKind}
    {rt : RequestType} {ns : Bytes} {payload : Payload} {promise : τ}
    (h : c.submit now state kind rt ns payload promise = .ok c') :
    ∃ ctx, c.current = some ctx ∧
      let c₁ := ({ c with nextId := c.nextId + 1,
                          inFlight := c.inFlight.set c.nextId
                            ⟨ctx.record, ctx.key, state, c.nextId, promise⟩ } : Controller τ).claim
                  now ctx.record (c.nextRequest ctx state kind rt ns payload)
      c' = c₁ ∨ c' = c₁.flush := by
  unfold submit at h
  split at h
  · cases h
  · split at h
    · cases h
    · rename_i ctx hctx
      refine ⟨ctx, hctx, ?_⟩
      dsimp only at h
      split at h
      · exact .inr (by cases h; rfl)
      · split at h
        · exact .inr (by cases h; rfl)
        · exact .inl (by cases h; rfl)

/-! ## Taking a completion -/

/-- The first collected completion whose request is in flight is taken; the ones before it
are dropped. -/
theorem nextCompletion_eq_some {t : Table Nat (InFlight τ)} {l rest : List Completion}
    {comp : Completion} {f : InFlight τ} (h : nextCompletion t l = some (comp, f, rest)) :
    ∃ pre, l = pre ++ comp :: rest ∧ (∀ x ∈ pre, t.get? x.id = none) ∧ t.get? comp.id = some f := by
  induction l with
  | nil => simp [nextCompletion] at h
  | cons x xs ih =>
    unfold nextCompletion at h
    split at h
    · rename_i f' hx
      cases h
      exact ⟨[], rfl, by simp, hx⟩
    · rename_i hx
      obtain ⟨pre, rfl, hpre, hf⟩ := ih h
      refine ⟨x :: pre, rfl, ?_, hf⟩
      intro y hy
      rcases List.mem_cons.mp hy with rfl | hy
      · exact hx
      · exact hpre y hy

/-- The second half of taking a completion: the completing request's pair issues its next
waiting request, if any. -/
def releasePair (c : Controller τ) (now : Nat) (key : Nat) (state : String) : Controller τ :=
  let (queues, next) := c.queues.release key state
  let c := { c with queues }
  match next with
  | some r => c.pushActive now r
  | none => c

/-- Taking a completion is `nextCompletion` followed by dropping the request from the in-flight
table, releasing its pair and making its record current. -/
theorem beginCompletion_eq (c : Controller τ) (now : Nat) :
    c.beginCompletion now = (nextCompletion c.inFlight c.completed).map fun (comp, f, rest) =>
      (comp, f, c.current, { ({ c with completed := rest, inFlight := c.inFlight.erase comp.id } :
        Controller τ).releasePair now f.key f.state with current := some ⟨f.record, f.key⟩ }) := by
  unfold beginCompletion releasePair
  cases nextCompletion c.inFlight c.completed with
  | none => rfl
  | some t =>
    obtain ⟨comp, f, rest⟩ := t
    simp only [Option.map_some]
    cases c.queues.release f.key f.state with
    | mk qs next => cases next <;> rfl

theorem beginCompletion_eq_some {c c' : Controller τ} {now : Nat} {comp : Completion}
    {f : InFlight τ} {previous : Option RecordContext}
    (h : c.beginCompletion now = some (comp, f, previous, c')) :
    ∃ pre rest, c.completed = pre ++ comp :: rest ∧ (∀ x ∈ pre, c.inFlight.get? x.id = none) ∧
      c.inFlight.get? comp.id = some f ∧ previous = c.current ∧
      c' = { ({ c with completed := rest, inFlight := c.inFlight.erase comp.id } : Controller τ).releasePair
              now f.key f.state with current := some ⟨f.record, f.key⟩ } := by
  rw [beginCompletion_eq] at h
  obtain ⟨⟨comp', f', rest⟩, hnext, heq⟩ := Option.map_eq_some_iff.mp h
  cases heq
  obtain ⟨pre, hl, hpre, hf⟩ := nextCompletion_eq_some hnext
  exact ⟨pre, rest, hl, hpre, hf, rfl, rfl⟩

theorem releasePair_eq (c : Controller τ) (now key : Nat) (state : String) :
    ∃ qs a s, c.releasePair now key state = { c with queues := qs, active := a, activeSince := s } := by
  unfold releasePair
  cases c.queues.release key state with
  | mk qs next =>
    cases next with
    | none => exact ⟨qs, c.active, c.activeSince, rfl⟩
    | some r => exact ⟨qs, _, _, rfl⟩

@[simp] theorem releasePair_inFlight (c : Controller τ) (now key : Nat) (state : String) :
    (c.releasePair now key state).inFlight = c.inFlight := by
  obtain ⟨_, _, _, h⟩ := releasePair_eq c now key state; rw [h]

@[simp] theorem releasePair_ownership (c : Controller τ) (now key : Nat) (state : String) :
    (c.releasePair now key state).ownership = c.ownership := by
  obtain ⟨_, _, _, h⟩ := releasePair_eq c now key state; rw [h]

@[simp] theorem releasePair_nextId (c : Controller τ) (now key : Nat) (state : String) :
    (c.releasePair now key state).nextId = c.nextId := by
  obtain ⟨_, _, _, h⟩ := releasePair_eq c now key state; rw [h]

@[simp] theorem releasePair_nextRecord (c : Controller τ) (now key : Nat) (state : String) :
    (c.releasePair now key state).nextRecord = c.nextRecord := by
  obtain ⟨_, _, _, h⟩ := releasePair_eq c now key state; rw [h]

@[simp] theorem releasePair_finished (c : Controller τ) (now key : Nat) (state : String) :
    (c.releasePair now key state).finished = c.finished := by
  obtain ⟨_, _, _, h⟩ := releasePair_eq c now key state; rw [h]; rfl

@[simp] theorem parked_releasePair (c : Controller τ) (now key : Nat) (state : String) :
    (c.releasePair now key state).parked = c.parked := by
  simp [parked]

/-- Releasing a pair whose issued request completed: with nothing waiting its entry goes;
otherwise the first waiting request becomes its issued one and is ready. -/
theorem releasePair_moves {c : Controller τ} (now : Nat) {key : Nat} {state : String}
    {q : PairQueue} (hk : c.queues.queues.keys.Nodup)
    (hq : c.queues.queues.get? (key, state) = some q) :
    (q.waiting = [] ∧
      (c.releasePair now key state).queues.queues = c.queues.queues.erase (key, state) ∧
      (c.releasePair now key state).waiting.Perm c.waiting ∧
      (c.releasePair now key state).ready = c.ready) ∨
    (∃ n rest, q.waiting = n :: rest ∧
      (c.releasePair now key state).queues.queues =
        c.queues.queues.set (key, state) ⟨n.sequence, rest⟩ ∧
      (n :: (c.releasePair now key state).waiting).Perm c.waiting ∧
      (c.releasePair now key state).ready = c.active ++ [n] ++ c.sent.flatten) := by
  have hold := Table.flatMap_perm_erase hk hq (·.waiting)
  cases hw : q.waiting with
  | nil =>
    have hrel : c.releasePair now key state = { c with queues := ⟨c.queues.queues.erase (key, state)⟩ } := by
      simp [releasePair, PairQueues.release_of_last hq hw]
    refine .inl ⟨rfl, by rw [hrel], ?_, by rw [hrel]; rfl⟩
    rw [hw, List.nil_append] at hold
    rw [hrel]
    exact hold.symm
  | cons n rest =>
    have hrel : c.releasePair now key state =
        ({ c with queues := ⟨c.queues.queues.set (key, state) ⟨n.sequence, rest⟩⟩ } : Controller τ).pushActive
          now n := by
      simp [releasePair, PairQueues.release_of_next hq hw]
    refine .inr ⟨n, rest, rfl, by rw [hrel]; rfl, ?_, by rw [hrel]; simp [pushActive, ready]⟩
    have hnew := Table.flatMap_set_perm hk (key, state) ⟨n.sequence, rest⟩ (·.waiting)
    rw [hrel]
    refine List.perm_iff_count.mpr fun a => ?_
    have h1 := hnew.count_eq a
    have h2 := hold.count_eq a
    rw [hw] at h2
    simp only [waiting, pushActive, List.count_cons, List.count_append] at h1 h2 ⊢
    omega

/-- What taking a completion does, once the completing request `id` is known to be the
issued one of its pair `(key, state)`: the request leaves the in-flight table and the
collected completions, and the pair's first waiting request, if any, moves from the waiting
line to the ready buffer and becomes the pair's issued request. -/
theorem completion_moves {c c₂ : Controller τ} {now id key : Nat} {state : String}
    {rest : List Completion} {q : PairQueue}
    (hc₂ : c₂ = ({ c with completed := rest, inFlight := c.inFlight.erase id } : Controller τ).releasePair
      now key state)
    (hk : c.queues.queues.keys.Nodup) (hq : c.queues.queues.get? (key, state) = some q) :
    c₂.inFlight = c.inFlight.erase id ∧ c₂.ownership = c.ownership ∧ c₂.current = c.current ∧
    c₂.nextId = c.nextId ∧ c₂.nextRecord = c.nextRecord ∧ c₂.finished = c.mailbox.flatten ++ rest ∧
    (c₂.waiting ++ c₂.ready).Perm (c.waiting ++ c.ready) ∧ (∀ x ∈ c.ready, x ∈ c₂.ready) ∧
    (∀ x ∈ c₂.ready, x ∈ c.ready ∨ q.waiting.head? = some x) ∧
    (∀ p, (key, state) ≠ p → c₂.queues.queues.get? p = c.queues.queues.get? p) ∧
    (q.waiting = [] ∧ c₂.queues.queues.get? (key, state) = none ∨
      ∃ n rest', q.waiting = n :: rest' ∧
        c₂.queues.queues.get? (key, state) = some ⟨n.sequence, rest'⟩ ∧ n ∈ c₂.ready) ∧
    c₂.queues.queues.keys.Nodup := by
  have hfields := releasePair_eq ({ c with completed := rest, inFlight := c.inFlight.erase id } :
    Controller τ) now key state
  rcases releasePair_moves (c := { c with completed := rest, inFlight := c.inFlight.erase id })
    now hk hq with ⟨hw, hQ, hW, hR⟩ | ⟨n, rest', hw, hQ, hW, hR⟩ <;> rw [← hc₂] at hfields hQ hW hR <;>
    obtain ⟨qs, a, s, hfields⟩ := hfields
  -- the fields releasing leaves alone
  all_goals refine ⟨by rw [hfields], by rw [hfields], by rw [hfields], by rw [hfields], by rw [hfields],
    by rw [hfields]; rfl, ?_⟩
  · have hready : c₂.ready = c.ready := hR
    refine ⟨?_, ?_, ?_, fun p hp => ?_, .inl ⟨hw, ?_⟩, ?_⟩
    · rw [hready]
      exact hW.append_right _
    · intro x hx
      rw [hready]
      exact hx
    · intro x hx
      rw [hready] at hx
      exact .inl hx
    · rw [hQ]
      exact Table.get?_erase_ne _ hp
    · rw [hQ]
      exact Table.get?_erase_self ..
    · rw [hQ]
      exact Table.nodup_keys_erase hk _
  · have hready : c₂.ready = c.active ++ [n] ++ c.sent.flatten := hR
    have hwait : (n :: c₂.waiting).Perm c.waiting := hW
    refine ⟨?_, ?_, ?_, fun p hp => ?_, .inr ⟨n, rest', hw, ?_, ?_⟩, ?_⟩
    · rw [hready]
      refine List.perm_iff_count.mpr fun x => ?_
      have h1 := hwait.count_eq x
      simp only [ready, List.count_cons, List.count_append, List.count_nil] at h1 ⊢
      omega
    · intro x hx
      rw [hready]
      simp only [ready, List.mem_append] at hx ⊢
      rcases hx with hx | hx
      · exact .inl (.inl hx)
      · exact .inr hx
    · intro x hx
      rw [hready] at hx
      simp only [ready, List.mem_append, List.mem_singleton] at hx ⊢
      rcases hx with (hx | rfl) | hx
      · exact .inl (.inl hx)
      · exact .inr (by simp [hw])
      · exact .inl (.inr hx)
    · rw [hQ]
      exact Table.get?_set_ne _ _ hp
    · rw [hQ]
      exact Table.get?_set_self ..
    · rw [hready]
      simp
    · rw [hQ]
      exact Table.nodup_keys_set hk _ _

/-! ## Ending a completion -/

/-- Ending a completion restores the previous record, counts the completion, and issues what
key ownership passes on. -/
theorem endCompletion_eq (c : Controller τ) (now record : Nat) (previous : Option RecordContext) :
    c.endCompletion now record previous =
      (c.ownership.complete record).2.foldl (fun c r => c.issue now r)
        { c with current := previous, ownership := (c.ownership.complete record).1 } := by
  simp only [endCompletion]

/-! ## What the transitions leave of the controller -/

@[simp] theorem flush_current (c : Controller τ) : c.flush.current = c.current := by
  obtain ⟨_, _, h⟩ := flush_eq_with c; rw [h]

@[simp] theorem flush_closed (c : Controller τ) : c.flush.closed = c.closed := by
  obtain ⟨_, _, h⟩ := flush_eq_with c; rw [h]

@[simp] theorem flush_nextId (c : Controller τ) : c.flush.nextId = c.nextId := by
  obtain ⟨_, _, h⟩ := flush_eq_with c; rw [h]

@[simp] theorem flush_inFlight (c : Controller τ) : c.flush.inFlight = c.inFlight := by
  obtain ⟨_, _, h⟩ := flush_eq_with c; rw [h]

@[simp] theorem flush_store (c : Controller τ) : c.flush.store = c.store := by
  obtain ⟨_, _, h⟩ := flush_eq_with c; rw [h]

/-- While the controller is open, a flush completes nothing. -/
theorem flush_finished {c : Controller τ} (hopen : c.closed = false) :
    c.flush.finished = c.finished := by
  simp only [flush_eq, dispatch, hopen, Bool.false_eq_true, if_false]
  split <;> rfl

@[simp] theorem releasePair_closed (c : Controller τ) (now key : Nat) (state : String) :
    (c.releasePair now key state).closed = c.closed := by
  obtain ⟨_, _, _, h⟩ := releasePair_eq c now key state; rw [h]

@[simp] theorem releasePair_store (c : Controller τ) (now key : Nat) (state : String) :
    (c.releasePair now key state).store = c.store := by
  obtain ⟨_, _, _, h⟩ := releasePair_eq c now key state; rw [h]

/-- Admitting a request touches only key ownership, the pair queues and the ready buffer. -/
theorem claim_eq_with (c : Controller τ) (now record : Nat) (r : Request) :
    ∃ o qs a s, c.claim now record r =
      { c with ownership := o, queues := qs, active := a, activeSince := s } := by
  obtain ⟨qs, a, s, heq⟩ := foldl_issue_eq_with
    { c with ownership := (c.ownership.claim record r).1 } now (c.ownership.claim record r).2.toList
  exact ⟨_, qs, a, s, by rw [claim_eq, heq]⟩

/-- Ending a completion touches only the current record, key ownership, the pair queues and the
ready buffer. -/
theorem endCompletion_eq_with (c : Controller τ) (now record : Nat)
    (previous : Option RecordContext) :
    ∃ o qs a s, c.endCompletion now record previous =
      { c with current := previous, ownership := o, queues := qs, active := a,
               activeSince := s } := by
  obtain ⟨qs, a, s, heq⟩ := foldl_issue_eq_with
    { c with current := previous, ownership := (c.ownership.complete record).1 } now
    (c.ownership.complete record).2
  exact ⟨_, qs, a, s, by rw [endCompletion_eq, heq]⟩

@[simp] theorem endCompletion_closed (c : Controller τ) (now record : Nat)
    (previous : Option RecordContext) :
    (c.endCompletion now record previous).closed = c.closed := by
  obtain ⟨_, _, _, _, h⟩ := endCompletion_eq_with c now record previous; rw [h]

@[simp] theorem endCompletion_inFlight (c : Controller τ) (now record : Nat)
    (previous : Option RecordContext) :
    (c.endCompletion now record previous).inFlight = c.inFlight := by
  obtain ⟨_, _, _, _, h⟩ := endCompletion_eq_with c now record previous; rw [h]

/-- Running a batch hands the store's answers to the mailbox as one message. -/
theorem execute_of_sent {c : Controller τ} {i : Nat} {batch : List Request}
    (h : c.sent[i]? = some batch) :
    c.execute i =
      { c with
        sent := c.sent.eraseIdx i, store := (c.store.executeBatch batch).2,
        mailbox := c.mailbox ++ [completionsOf batch (c.store.executeBatch batch).1] } := by
  rw [execute_eq h]
  rfl

/-- An accepted submission takes the next id and enters its request in flight; the current
record, the store and the completions stay as they were. -/
theorem submit_fields {c c' : Controller τ} (hopen : c.closed = false) {now : Nat}
    {state : String} {kind : StateKind} {rt : RequestType} {ns : Bytes} {payload : Payload}
    {promise : τ} (hs : c.submit now state kind rt ns payload promise = .ok c') :
    ∃ ctx, c.current = some ctx ∧ c'.current = c.current ∧ c'.closed = false ∧
      c'.nextId = c.nextId + 1 ∧
      c'.inFlight = c.inFlight.set c.nextId ⟨ctx.record, ctx.key, state, c.nextId, promise⟩ ∧
      c'.store = c.store ∧ c'.finished = c.finished := by
  obtain ⟨ctx, hctx, hc⟩ := submit_eq_ok hs
  obtain ⟨o, qs, a, s, heq⟩ := claim_eq_with
    ({ c with
        nextId := c.nextId + 1,
        inFlight := c.inFlight.set c.nextId ⟨ctx.record, ctx.key, state, c.nextId, promise⟩ } :
      Controller τ) now ctx.record (c.nextRequest ctx state kind rt ns payload)
  simp only [heq] at hc
  refine ⟨ctx, hctx, ?_⟩
  rcases hc with rfl | rfl
  · exact ⟨rfl, hopen, rfl, rfl, rfl, rfl⟩
  · -- the flush that may follow sends the ready buffer on and completes nothing
    rw [flush_current, flush_closed, flush_nextId, flush_inFlight, flush_store, flush_finished]
    · exact ⟨rfl, hopen, rfl, rfl, rfl, rfl⟩
    · exact hopen

/-- A submission the open controller refuses is one made with no current key. -/
theorem submit_eq_error {c : Controller τ} (hopen : c.closed = false) {now : Nat}
    {state : String} {kind : StateKind} {rt : RequestType} {ns : Bytes} {payload : Payload}
    {promise : τ} {e : StateError}
    (hs : c.submit now state kind rt ns payload promise = .error e) :
    c.current = none ∧ e = .noCurrentKey := by
  simp only [submit, hopen, Bool.false_eq_true, if_false] at hs
  split at hs
  · exact ⟨‹_›, by cases hs; rfl⟩
  · split at hs <;> (try split at hs) <;> cases hs

end Controller

end OrderedState
