import OrderedState.Proofs.Invariant

/-!
# One record per key, one request per pair

Two exclusion properties of every reachable controller, read off the invariant of
`Proofs.Invariant`:

* key ownership: every request key ownership has let through (the issued slot and the waiting
  line of every pair, the ready buffer, the batches at the executor, the completions not yet
  taken) is in flight under the record that owns its key, and that record has a positive
  pending count. All let-through requests on one key therefore belong to one record.
* pair order: of the requests of one (key, state) pair at most one is issued. The pair has a
  queue entry exactly while one is, and the entry names its sequence number; the requests
  waiting behind it are the pair's other admitted requests, with sequence numbers increasing
  from the issued one.

Both hold along every run, continuations that start records and submit included, since
`Reachable` closes over every transition of `Machine.Step`.
-/

namespace OrderedState

variable {τ : Type}

namespace Machine.Inv

variable {m : Machine τ}

/-- A let-through request is waiting at its pair or issued. -/
theorem letThrough_mem (h : m.Inv []) {id : Nat} (hid : id ∈ m.ctl.letThrough) :
    id ∈ m.ctl.waiting.map (·.id) ++ m.ctl.issuedIds := by
  simp only [Controller.letThrough, List.mem_append] at hid
  rcases hid with (hid | hid) | hid
  · obtain ⟨⟨p, q⟩, hpq, rfl⟩ := List.mem_map.mp hid
    exact List.mem_append_right _
      (h.queue_issued p q (Table.get?_eq_some_of_mem h.queues_keys hpq)).1
  · exact List.mem_append_left _ hid
  · exact List.mem_append_right _ hid

/-- A let-through request is in flight, and its record owns its key. -/
theorem letThrough_owned (h : m.Inv []) {id : Nat} (hid : id ∈ m.ctl.letThrough) :
    ∃ f, m.ctl.inFlight.get? id = some f ∧ m.ctl.ownership.Owns f.key f.record :=
  h.owned id (List.mem_append_left _ (h.letThrough_mem hid))

/-- A waiting request sits in the queue of its own pair. -/
theorem mem_waiting (h : m.Inv []) {r : Request} (hr : r ∈ m.ctl.waiting) :
    ∃ q, m.ctl.queues.queues.get? (r.key, r.state) = some q ∧ r ∈ q.waiting := by
  obtain ⟨⟨p, q⟩, hpq, hrq⟩ := List.mem_flatMap.mp hr
  have hq := Table.get?_eq_some_of_mem h.queues_keys hpq
  rw [(h.queue_line p q hq).2 r hrq]
  exact ⟨q, hq, hrq⟩

/-- A waiting request's sequence number is its id. -/
theorem waiting_sequence (h : m.Inv []) {r : Request} (hr : r ∈ m.ctl.waiting) :
    r.sequence = r.id := by
  obtain ⟨f, hf, hd⟩ := h.request_entry r (by simp [hr])
  exact hd.2.2.symm.trans (h.entry _ f hf).2.1

end Machine.Inv

open Machine

/-- Key ownership is exclusive: a request let through is in flight under the record that owns
its key, that record has a positive pending count, and every other request let through on the
same key belongs to the same record. -/
theorem letThrough_owner_exclusive {cfg : Config} {m : Machine τ} (hm : Reachable cfg m)
    {id : Nat} (hid : id ∈ m.ctl.letThrough) :
    ∃ f ko e, m.ctl.inFlight.get? id = some f ∧
      m.ctl.ownership.owners.get? f.key = some ko ∧ ko.record = f.record ∧
      m.ctl.ownership.records.get? f.record = some e ∧ 0 < e.pending ∧
      ∀ id' ∈ m.ctl.letThrough, ∀ f', m.ctl.inFlight.get? id' = some f' →
        f'.key = f.key → f'.record = f.record := by
  have h := hm.inv
  obtain ⟨f, hf, ko, hko, hrec⟩ := h.letThrough_owned hid
  obtain ⟨e, he⟩ := h.record_of_inFlight hf
  refine ⟨f, ko, e, hf, hko, hrec, he, h.pending_pos _ e he, ?_⟩
  intro id' hid' f' hf' hkey
  obtain ⟨f'', hf'', hown'⟩ := h.letThrough_owned hid'
  rw [hf'] at hf''
  cases hf''
  rw [hkey] at hown'
  exact hown'.unique ⟨ko, hko, hrec⟩

/-- A run of two steps: record 0 starts on key 5 and submits a read of state "s". -/
def Machine.oneRead : Machine Unit :=
  let m : Machine Unit :=
    { (Machine.start {} : Machine Unit) with
      ctl := (Machine.start {} : Machine Unit).ctl.setCurrentKey 5 }
  { m with ctl := ((m.ctl.submit 0 "s" .value .valueGet [] .empty ()).toOption).getD m.ctl }

theorem Machine.reachable_oneRead : Reachable {} Machine.oneRead :=
  .step (.step .start (.setKey _ 5)) (.submit _ 0 "s" .value .valueGet [] .empty () _ rfl)

/-- Record 0 reads state "s" of key 1 twice, then record 1 reads it too. The first read is
issued, the second waits behind it on the pair, and record 1's read is parked behind record 0. -/
def Machine.contestedMoves : List (Move Unit) :=
  [.setKey 1, .submit 0 "s" .value .valueGet [] .empty (),
    .submit 0 "s" .value .valueGet [] .empty (), .setKey 1,
    .submit 0 "s" .value .valueGet [] .empty ()]

/-- Where `contestedMoves` leads from a fresh controller. -/
def Machine.contested : Machine Unit :=
  ((start {} : Machine Unit).run? contestedMoves).getD (start {})

theorem Machine.reachable_contested : Reachable {} Machine.contested :=
  Reachable.run? .start
    (show (start {} : Machine Unit).run? Machine.contestedMoves = some Machine.contested from rfl)

/-- With record 1's read parked behind record 0 on key 1, both of record 0's reads are let
through, and every request let through on key 1 is record 0's. -/
theorem contested_owner_exclusive :
    Reachable {} Machine.contested ∧
    (∃ ko, Machine.contested.ctl.ownership.owners.get? 1 = some ko ∧ ko.record = 0 ∧
      ko.parked.map (·.1) = [1]) ∧
    0 ∈ Machine.contested.ctl.letThrough ∧ 1 ∈ Machine.contested.ctl.letThrough ∧
      ∃ f ko e, Machine.contested.ctl.inFlight.get? 1 = some f ∧
        Machine.contested.ctl.ownership.owners.get? f.key = some ko ∧ ko.record = f.record ∧
        Machine.contested.ctl.ownership.records.get? f.record = some e ∧ 0 < e.pending ∧
        ∀ id' ∈ Machine.contested.ctl.letThrough, ∀ f',
          Machine.contested.ctl.inFlight.get? id' = some f' → f'.key = f.key →
          f'.record = f.record :=
  ⟨Machine.reachable_contested, by decide +kernel, by decide +kernel, by decide +kernel,
    letThrough_owner_exclusive Machine.reachable_contested (by decide +kernel)⟩

/-- Pair order: at most one request of a pair is issued; the pair has a queue entry exactly
while one is, naming its sequence number; the entry's waiting line holds the pair's other
admitted requests, on the pair, with sequence numbers increasing from the issued one. -/
theorem pair_queue_ordered {cfg : Config} {m : Machine τ} (hm : Reachable cfg m) (p : Pair) :
    (∀ id₁ ∈ m.ctl.issuedIds, ∀ id₂ ∈ m.ctl.issuedIds, ∀ f₁ f₂,
      m.ctl.inFlight.get? id₁ = some f₁ → m.ctl.inFlight.get? id₂ = some f₂ →
      (f₁.key, f₁.state) = p → (f₂.key, f₂.state) = p → id₁ = id₂) ∧
    (∀ id ∈ m.ctl.issuedIds, ∀ f, m.ctl.inFlight.get? id = some f → (f.key, f.state) = p →
      ∃ q, m.ctl.queues.queues.get? p = some q ∧ q.issued = f.sequence) ∧
    (∀ q, m.ctl.queues.queues.get? p = some q → q.issued ∈ m.ctl.issuedIds ∧
      (∃ f, m.ctl.inFlight.get? q.issued = some f ∧ (f.key, f.state) = p ∧
        f.sequence = q.issued) ∧
      (q.issued :: q.waiting.map (·.sequence)).Pairwise (· < ·) ∧
      ∀ r ∈ q.waiting, (r.key, r.state) = p) ∧
    (∀ r ∈ m.ctl.waiting, (r.key, r.state) = p →
      ∃ q, m.ctl.queues.queues.get? p = some q ∧ r ∈ q.waiting) := by
  have h := hm.inv
  -- the pair of an issued request has an entry naming that request
  have hentry : ∀ id ∈ m.ctl.issuedIds, ∀ f, m.ctl.inFlight.get? id = some f →
      (f.key, f.state) = p → ∃ q, m.ctl.queues.queues.get? p = some q ∧ q.issued = id := by
    intro id hid f hf hp
    obtain ⟨f', q, hf', hq, hqi⟩ := h.issued_queue id hid
    rw [hf] at hf'
    cases hf'
    exact ⟨q, hp ▸ hq, hqi⟩
  refine ⟨?_, ?_, ?_, ?_⟩
  · intro id₁ hid₁ id₂ hid₂ f₁ f₂ hf₁ hf₂ hp₁ hp₂
    obtain ⟨q₁, hq₁, hi₁⟩ := hentry id₁ hid₁ f₁ hf₁ hp₁
    obtain ⟨q₂, hq₂, hi₂⟩ := hentry id₂ hid₂ f₂ hf₂ hp₂
    rw [hq₁] at hq₂
    cases hq₂
    exact hi₁.symm.trans hi₂
  · intro id hid f hf hp
    obtain ⟨q, hq, hqi⟩ := hentry id hid f hf hp
    exact ⟨q, hq, hqi.trans (h.entry id f hf).2.1.symm⟩
  · intro q hq
    obtain ⟨hmem, f, hf, hp⟩ := h.queue_issued p q hq
    obtain ⟨hline, hpairs⟩ := h.queue_line p q hq
    -- a waiting request's sequence number is its id
    have hseq : q.waiting.map (·.sequence) = q.waiting.map (·.id) :=
      List.map_congr_left fun r hr =>
        h.waiting_sequence (List.mem_flatMap.mpr ⟨(p, q), Table.mem_of_get?_eq_some hq, hr⟩)
    refine ⟨hmem, ⟨f, hf, hp, (h.entry _ f hf).2.1⟩, ?_, hpairs⟩
    rw [hseq]
    exact hline
  · intro r hr hp
    obtain ⟨q, hq, hrq⟩ := h.mem_waiting hr
    exact ⟨q, hp ▸ hq, hrq⟩

/-- On the pair of key 1 and state "s", where record 0's second read waits behind its first:
the first is the only one issued, and the pair's entry names it with the second behind it. -/
theorem contested_pair_ordered :
    Reachable {} Machine.contested ∧
    (∃ q, Machine.contested.ctl.queues.queues.get? (1, "s") = some q ∧ q.issued = 0 ∧
      q.waiting.map (·.id) = [1]) ∧
    (∀ id₁ ∈ Machine.contested.ctl.issuedIds, ∀ id₂ ∈ Machine.contested.ctl.issuedIds, ∀ f₁ f₂,
      Machine.contested.ctl.inFlight.get? id₁ = some f₁ →
      Machine.contested.ctl.inFlight.get? id₂ = some f₂ →
      (f₁.key, f₁.state) = (1, "s") → (f₂.key, f₂.state) = (1, "s") → id₁ = id₂) ∧
    (∀ id ∈ Machine.contested.ctl.issuedIds, ∀ f, Machine.contested.ctl.inFlight.get? id = some f →
      (f.key, f.state) = (1, "s") →
      ∃ q, Machine.contested.ctl.queues.queues.get? (1, "s") = some q ∧ q.issued = f.sequence) ∧
    (∀ q, Machine.contested.ctl.queues.queues.get? (1, "s") = some q →
      q.issued ∈ Machine.contested.ctl.issuedIds ∧
      (∃ f, Machine.contested.ctl.inFlight.get? q.issued = some f ∧ (f.key, f.state) = (1, "s") ∧
        f.sequence = q.issued) ∧
      (q.issued :: q.waiting.map (·.sequence)).Pairwise (· < ·) ∧
      ∀ r ∈ q.waiting, (r.key, r.state) = (1, "s")) ∧
    (∀ r ∈ Machine.contested.ctl.waiting, (r.key, r.state) = (1, "s") →
      ∃ q, Machine.contested.ctl.queues.queues.get? (1, "s") = some q ∧ r ∈ q.waiting) :=
  ⟨Machine.reachable_contested, by decide +kernel,
    pair_queue_ordered Machine.reachable_contested (1, "s")⟩

end OrderedState
