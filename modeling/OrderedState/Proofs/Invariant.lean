import OrderedState.Proofs.Machine

/-!
# The controller's bookkeeping stays consistent

`Machine.Inv m held` is the invariant of every reachable machine (with `held = []`). It ties
together the four pieces of state a request passes through:

* placement: every request in flight sits in exactly one place (parked, waiting, ready or
  finished), and every place holds only requests in flight, described by their in-flight
  entries;
* ownership: every request let through belongs to the record owning its key; a record's
  pending count is the number of its requests in flight plus the completions of its being
  processed; every completion being processed belongs to a record that owns its key; each
  record has one key;
* pair queues: a pair has an entry exactly while one of its requests is issued, the entry names
  that request, and the requests waiting behind it have larger sequence numbers, in order;
* freshness: ids and records in use are below the counters that hand out new ones.

The list `held` is for the moments inside one transition when requests have passed key
ownership and are about to be issued at their pairs: they are in flight but placed nowhere
yet. Every transition keeps the invariant (`Inv.step`), so every reachable machine has it
(`Reachable.inv`).
-/

namespace OrderedState

variable {τ : Type}

/-- Record `r` owns key `k`. -/
def Ownership.Owns (o : Ownership) (k r : Nat) : Prop := ∃ ko, o.owners.get? k = some ko ∧ ko.record = r

namespace Ownership

/-- The three things admitting a request can do to key ownership: take a free key, count
another request of the owner, or park the request behind the owner. -/
theorem claim_cases (o : Ownership) (record : Nat) (r : Request) :
    (o.owners.get? r.key = none ∧ o.claim record r =
      ({ records := o.countOne record r.key, owners := o.owners.set r.key ⟨record, []⟩ }, some r)) ∨
    (∃ ko, o.owners.get? r.key = some ko ∧ ko.record = record ∧
      o.claim record r = ({ o with records := o.countOne record r.key }, some r)) ∨
    (∃ ko, o.owners.get? r.key = some ko ∧ ko.record ≠ record ∧
      o.claim record r =
        ({ records := o.countOne record r.key,
           owners := o.owners.set r.key { ko with parked := ko.parked ++ [(record, r)] } }, none)) := by
  cases hk : o.owners.get? r.key with
  | none => exact .inl ⟨rfl, claim_of_free hk⟩
  | some ko =>
    by_cases hr : ko.record = record
    · exact .inr (.inl ⟨ko, rfl, hr, claim_of_owner hk hr⟩)
    · exact .inr (.inr ⟨ko, rfl, hr, claim_of_parked hk hr⟩)

theorem claim_records (o : Ownership) (record : Nat) (r : Request) :
    (o.claim record r).1.records = o.countOne record r.key := by
  rcases claim_cases o record r with ⟨-, heq⟩ | ⟨_, -, -, heq⟩ | ⟨_, -, -, heq⟩ <;> rw [heq]

theorem nodup_keys_claim {o : Ownership} (record : Nat) (r : Request) (hk : o.owners.keys.Nodup) :
    (o.claim record r).1.owners.keys.Nodup := by
  rcases claim_cases o record r with ⟨-, heq⟩ | ⟨_, -, -, heq⟩ | ⟨_, -, -, heq⟩ <;> rw [heq]
  · exact Table.nodup_keys_set hk _ _
  · exact hk
  · exact Table.nodup_keys_set hk _ _

/-- A key has one owner. -/
theorem Owns.unique {o : Ownership} {k r₁ r₂ : Nat} (h₁ : o.Owns k r₁) (h₂ : o.Owns k r₂) :
    r₁ = r₂ := by
  obtain ⟨ko₁, hk₁, rfl⟩ := h₁
  obtain ⟨ko₂, hk₂, rfl⟩ := h₂
  rw [hk₁] at hk₂
  cases hk₂
  rfl

/-- Admitting never takes a key from its owner. -/
theorem claim_owns {o : Ownership} (record : Nat) (r : Request) {k owner : Nat}
    (h : o.Owns k owner) : (o.claim record r).1.Owns k owner := by
  obtain ⟨ko, hko, rfl⟩ := h
  rcases claim_cases o record r with ⟨hk, heq⟩ | ⟨_, -, -, heq⟩ | ⟨ko', hk, -, heq⟩ <;> rw [heq]
  · have hne : r.key ≠ k := by
      rintro rfl
      rw [hk] at hko
      cases hko
    exact ⟨ko, by rw [Table.get?_set_ne _ _ hne]; exact hko, rfl⟩
  · exact ⟨ko, hko, rfl⟩
  · by_cases hkk : r.key = k
    · subst hkk
      rw [hk] at hko
      cases hko
      exact ⟨_, Table.get?_set_self .., rfl⟩
    · exact ⟨ko, by rw [Table.get?_set_ne _ _ hkk]; exact hko, rfl⟩

/-- After admitting, every owner is an old owner with the same parked line or the request
appended to it, or the admitting record on the request's free key. -/
theorem claim_owner_cases (o : Ownership) (record : Nat) (r : Request) (k : Nat) (ko' : KeyOwner)
    (h : (o.claim record r).1.owners.get? k = some ko') :
    (∃ ko, o.owners.get? k = some ko ∧ ko'.record = ko.record ∧
      (ko'.parked = ko.parked ∨ k = r.key ∧ ko'.parked = ko.parked ++ [(record, r)])) ∨
    o.owners.get? k = none ∧ k = r.key ∧ ko' = ⟨record, []⟩ := by
  rcases claim_cases o record r with ⟨hk, heq⟩ | ⟨_, -, -, heq⟩ | ⟨ko, hk, -, heq⟩ <;>
    rw [heq] at h
  · by_cases hkk : r.key = k
    · subst hkk
      rw [Table.get?_set_self] at h
      cases h
      exact .inr ⟨hk, rfl, rfl⟩
    · rw [Table.get?_set_ne _ _ hkk] at h
      exact .inl ⟨ko', h, rfl, .inl rfl⟩
  · exact .inl ⟨ko', h, rfl, .inl rfl⟩
  · by_cases hkk : r.key = k
    · subst hkk
      rw [Table.get?_set_self] at h
      cases h
      exact .inl ⟨ko, hk, rfl, .inr ⟨rfl, rfl⟩⟩
    · rw [Table.get?_set_ne _ _ hkk] at h
      exact .inl ⟨ko', h, rfl, .inl rfl⟩

/-- Admitting either lets the request through, its record then owning its key, or parks it. -/
theorem claim_let_through (o : Ownership) (record : Nat) (r : Request) :
    (o.claim record r).2.toList = [] ∨
      (o.claim record r).2.toList = [r] ∧ (o.claim record r).1.Owns r.key record := by
  rcases claim_cases o record r with ⟨-, heq⟩ | ⟨ko, hk, hr, heq⟩ | ⟨_, -, -, heq⟩ <;> rw [heq]
  · exact .inr ⟨rfl, _, Table.get?_set_self .., rfl⟩
  · exact .inr ⟨rfl, ko, hk, hr⟩
  · exact .inl rfl

/-- The admitted request is placed once: parked, or let through. -/
theorem claim_parked_perm {o : Ownership} (record : Nat) (r : Request) (hk : o.owners.keys.Nodup) :
    (((o.claim record r).1.owners.flatMap (·.2.parked)).map (·.2.id) ++
      (o.claim record r).2.toList.map (·.id)).Perm
    ((o.owners.flatMap (·.2.parked)).map (·.2.id) ++ [r.id]) := by
  rcases claim_cases o record r with ⟨hfree, heq⟩ | ⟨_, -, -, heq⟩ | ⟨ko, hko, -, heq⟩ <;> rw [heq]
  · simp [Table.set_eq_append _ hfree]
  · simp
  · have hnew := ((Table.flatMap_set_perm hk r.key { ko with parked := ko.parked ++ [(record, r)] }
      (·.parked)).map (·.2.id))
    have hold := ((Table.flatMap_perm_erase hk hko (·.parked)).map (·.2.id))
    refine List.perm_iff_count.mpr fun a => ?_
    have h1 := hnew.count_eq a
    have h2 := hold.count_eq a
    simp only [List.map_append, List.map_cons, List.map_nil, List.count_append, List.count_nil,
      Option.toList] at h1 h2 ⊢
    omega

/-- The parked requests after admitting are the old ones and, if it was parked, the request. -/
theorem mem_parked_claim {o : Ownership} {record : Nat} {r : Request} (hk : o.owners.keys.Nodup)
    {x : Nat × Request} (hx : x ∈ (o.claim record r).1.owners.flatMap (·.2.parked)) :
    x ∈ o.owners.flatMap (·.2.parked) ∨ x = (record, r) := by
  obtain ⟨⟨k, ko'⟩, hmem, hx⟩ := List.mem_flatMap.mp hx
  have hko' := Table.get?_eq_some_of_mem (nodup_keys_claim record r hk) hmem
  have hold : ∀ ko, o.owners.get? k = some ko → x ∈ ko.parked → x ∈ o.owners.flatMap (·.2.parked) :=
    fun ko hko hx => List.mem_flatMap.mpr ⟨(k, ko), Table.mem_of_get?_eq_some hko, hx⟩
  rcases claim_owner_cases o record r k ko' hko' with ⟨ko, hko, -, hsame | ⟨-, happ⟩⟩ | ⟨-, -, rfl⟩
  · rw [hsame] at hx
    exact .inl (hold ko hko hx)
  · rw [happ, List.mem_append, List.mem_singleton] at hx
    rcases hx with hx | rfl
    · exact .inl (hold ko hko hx)
    · exact .inr rfl
  · simp at hx

/-- The owner of key `key` hands it over as its record ends; `ko` is the key's entry before and
`owners'` the owners' table after. The leading parked requests `take`, all of record `next`, are
let through, and `next` owns the key with the others, `drop`, still parked; with nothing parked,
the key is freed. -/
structure Handover (owners owners' : Table Nat KeyOwner) (key : Nat) (ko : KeyOwner) (next : Nat)
    (take drop : List (Nat × Request)) : Prop where
  split : ko.parked = take ++ drop
  take_next : ∀ x ∈ take, x.1 = next
  keys : owners'.keys.Nodup
  other : ∀ k, key ≠ k → owners'.get? k = owners.get? k
  self : owners'.get? key = none ∧ ko.parked = [] ∨
    owners'.get? key = some ⟨next, drop⟩ ∧ take ≠ []
  parked : (owners'.flatMap (·.2.parked)).Perm (drop ++ (owners.erase key).flatMap (·.2.parked))

namespace Handover

variable {owners owners' : Table Nat KeyOwner} {key : Nat} {ko : KeyOwner} {next : Nat}
  {take drop : List (Nat × Request)}

/-- The requests let through and those parked afterwards are those parked before. -/
theorem parked_perm (hh : Handover owners owners' key ko next take drop) (hk : owners.keys.Nodup)
    (hko : owners.get? key = some ko) :
    (take ++ owners'.flatMap (·.2.parked)).Perm (owners.flatMap (·.2.parked)) := by
  have hold : (owners.flatMap (·.2.parked)).Perm
      (ko.parked ++ (owners.erase key).flatMap (·.2.parked)) :=
    Table.flatMap_perm_erase hk hko (·.parked)
  rw [hh.split, List.append_assoc] at hold
  exact (hh.parked.append_left take).trans hold.symm

/-- Every request parked afterwards was parked before. -/
theorem mem_parked (hh : Handover owners owners' key ko next take drop) (hk : owners.keys.Nodup)
    (hko : owners.get? key = some ko) {x : Nat × Request}
    (hx : x ∈ owners'.flatMap (·.2.parked)) : x ∈ owners.flatMap (·.2.parked) :=
  (hh.parked_perm hk hko).subset (List.mem_append_right _ hx)

/-- Every other key keeps its owner. -/
theorem owns_of_ne (hh : Handover owners owners' key ko next take drop)
    {records records' : Table Nat RecordEntry} {k r : Nat} (hk : k ≠ key)
    (ho : Ownership.Owns ⟨records, owners⟩ k r) : Ownership.Owns ⟨records', owners'⟩ k r := by
  obtain ⟨ko', hko', rfl⟩ := ho
  exact ⟨ko', by rw [← hko']; exact hh.other k (Ne.symm hk), rfl⟩

/-- The key's entry afterwards, if any, is `next`'s, with the requests still parked. -/
theorem get?_self (hh : Handover owners owners' key ko next take drop) {ko' : KeyOwner}
    (hko' : owners'.get? key = some ko') : ko' = ⟨next, drop⟩ ∧ take ≠ [] := by
  rcases hh.self with ⟨hnone, -⟩ | ⟨hsome, hne⟩
  · rw [hnone] at hko'
    cases hko'
  · rw [hsome, Option.some.injEq] at hko'
    exact ⟨hko'.symm, hne⟩

/-- Once a request is let through, `next` owns the key. -/
theorem get?_of_mem_take (hh : Handover owners owners' key ko next take drop)
    {y : Nat × Request} (hy : y ∈ take) : owners'.get? key = some ⟨next, drop⟩ := by
  rcases hh.self with ⟨-, hnil⟩ | ⟨hsome, -⟩
  · rw [hh.split] at hnil
    simp [(List.append_eq_nil_iff.mp hnil).1] at hy
  · exact hsome

end Handover

end Ownership

/-- An in-flight entry describes a request: the same key, state and sequence number. -/
def InFlight.Describes (f : InFlight τ) (r : Request) : Prop :=
  f.key = r.key ∧ f.state = r.state ∧ f.sequence = r.sequence

/-- How many requests of record `r` are outstanding: in flight, or completed with their
continuations running. -/
def Machine.outstanding (m : Machine τ) (r : Nat) : Nat :=
  m.ctl.inFlight.countP (fun e => e.2.record = r) + m.frames.countP (fun fr => fr.record = r)

/-- The invariant of the controller's bookkeeping, with `held` the requests that passed key
ownership and are about to be issued at their pairs, in order. -/
structure Machine.Inv (m : Machine τ) (held : List Request) : Prop where
  inFlight_keys : m.ctl.inFlight.keys.Nodup
  owners_keys : m.ctl.ownership.owners.keys.Nodup
  queues_keys : m.ctl.queues.queues.keys.Nodup
  placed : (m.ctl.placedIds ++ held.map (·.id)).Perm m.ctl.inFlight.keys
  entry : ∀ id f, m.ctl.inFlight.get? id = some f →
    id < m.ctl.nextId ∧ f.sequence = id ∧ f.record < m.ctl.nextRecord
  parked_entry : ∀ x ∈ m.ctl.parked, ∃ f, m.ctl.inFlight.get? x.2.id = some f ∧
    f.record = x.1 ∧ f.Describes x.2
  request_entry : ∀ r ∈ m.ctl.waiting ++ m.ctl.ready ++ held, ∃ f,
    m.ctl.inFlight.get? r.id = some f ∧ f.Describes r
  owned : ∀ id ∈ m.ctl.waiting.map (·.id) ++ m.ctl.issuedIds ++ held.map (·.id), ∃ f,
    m.ctl.inFlight.get? id = some f ∧ m.ctl.ownership.Owns f.key f.record
  owner_entry : ∀ k ko, m.ctl.ownership.owners.get? k = some ko →
    ∃ e, m.ctl.ownership.records.get? ko.record = some e ∧ e.key = k
  parked_line : ∀ k ko, m.ctl.ownership.owners.get? k = some ko →
    (ko.parked.map (·.2.id)).Pairwise (· < ·) ∧ ∀ x ∈ ko.parked, x.2.key = k
  pending : ∀ r, ((m.ctl.ownership.records.get? r).map (·.pending)).getD 0 = m.outstanding r
  pending_pos : ∀ r e, m.ctl.ownership.records.get? r = some e → 0 < e.pending
  record_lt : ∀ r e, m.ctl.ownership.records.get? r = some e → r < m.ctl.nextRecord
  frame_owns : ∀ fr ∈ m.frames, ∃ e, m.ctl.ownership.records.get? fr.record = some e ∧
    m.ctl.ownership.Owns e.key fr.record
  context_lt : ∀ ctx ∈ m.contexts, ctx.record < m.ctl.nextRecord
  keyed : ∃ keyOf : Nat → Nat,
    (∀ id f, m.ctl.inFlight.get? id = some f → f.key = keyOf f.record) ∧
    (∀ r e, m.ctl.ownership.records.get? r = some e → e.key = keyOf r) ∧
    ∀ ctx ∈ m.contexts, ctx.key = keyOf ctx.record
  queue_issued : ∀ p q, m.ctl.queues.queues.get? p = some q → q.issued ∈ m.ctl.issuedIds ∧
    ∃ f, m.ctl.inFlight.get? q.issued = some f ∧ (f.key, f.state) = p
  queue_line : ∀ p q, m.ctl.queues.queues.get? p = some q →
    (q.issued :: q.waiting.map (·.id)).Pairwise (· < ·) ∧ ∀ r ∈ q.waiting, (r.key, r.state) = p
  issued_queue : ∀ id ∈ m.ctl.issuedIds, ∃ f q, m.ctl.inFlight.get? id = some f ∧
    m.ctl.queues.queues.get? (f.key, f.state) = some q ∧ q.issued = id
  held_line : (held.map (·.id)).Pairwise (· < ·)
  held_after : ∀ r ∈ held, ∀ q, m.ctl.queues.queues.get? (r.key, r.state) = some q →
    ∀ i ∈ q.issued :: q.waiting.map (·.id), i < r.id

namespace Machine.Inv

variable {m : Machine τ} {held : List Request}

/-! ## Facts every state with the invariant has -/

theorem placed_nodup (h : m.Inv held) : (m.ctl.placedIds ++ held.map (·.id)).Nodup :=
  h.placed.nodup_iff.mpr h.inFlight_keys

/-- A placed request is in flight. -/
theorem inFlight_of_placed (h : m.Inv held) {id : Nat}
    (hid : id ∈ m.ctl.placedIds ++ held.map (·.id)) : ∃ f, m.ctl.inFlight.get? id = some f := by
  have hkey := h.placed.mem_iff.mp hid
  obtain ⟨⟨j, f⟩, hmem, rfl⟩ := List.mem_map.mp hkey
  exact ⟨f, Table.get?_eq_some_of_mem h.inFlight_keys hmem⟩

/-- Every in-flight entry is counted against its record, so its record has an entry. -/
theorem record_of_inFlight (h : m.Inv held) {id : Nat} {f : InFlight τ}
    (hf : m.ctl.inFlight.get? id = some f) :
    ∃ e, m.ctl.ownership.records.get? f.record = some e := by
  have hpos : 0 < m.outstanding f.record := by
    have : 0 < m.ctl.inFlight.countP (fun e => e.2.record = f.record) :=
      List.countP_pos_iff.mpr ⟨(id, f), Table.mem_of_get?_eq_some hf, by simp⟩
    unfold outstanding
    omega
  rw [← h.pending f.record] at hpos
  cases he : m.ctl.ownership.records.get? f.record with
  | none => simp [he] at hpos
  | some e => exact ⟨e, rfl⟩

/-! ## Flushing, running, collecting, closing -/

/-- A transition that only moves issued requests along (flushing, running, collecting) or
touches none of the bookkeeping keeps the invariant. -/
theorem moved (h : m.Inv []) {m' : Machine τ} (hfr : m'.frames = m.frames)
    (hf : m'.ctl.inFlight = m.ctl.inFlight) (ho : m'.ctl.ownership = m.ctl.ownership)
    (hq : m'.ctl.queues = m.ctl.queues) (hcur : m'.ctl.current = m.ctl.current)
    (hid : m'.ctl.nextId = m.ctl.nextId) (hrec : m'.ctl.nextRecord = m.ctl.nextRecord)
    (hissued : m'.ctl.issuedIds.Perm m.ctl.issuedIds)
    (hready : ∀ r ∈ m'.ctl.ready, r ∈ m.ctl.ready) : m'.Inv [] := by
  have hparked : m'.ctl.parked = m.ctl.parked := by simp [Controller.parked, ho]
  have hwaiting : m'.ctl.waiting = m.ctl.waiting := by simp [Controller.waiting, hq]
  have hctx : m'.contexts = m.contexts := by simp [contexts, hcur, hfr]
  have hout : m'.outstanding = m.outstanding := by
    funext r
    simp [outstanding, hf, hfr]
  have hmem : ∀ id, id ∈ m'.ctl.issuedIds ↔ id ∈ m.ctl.issuedIds := fun id => hissued.mem_iff
  obtain ⟨keyOf, hkf, hkr, hkc⟩ := h.keyed
  constructor
  case inFlight_keys => rw [hf]; exact h.inFlight_keys
  case owners_keys => rw [ho]; exact h.owners_keys
  case queues_keys => rw [hq]; exact h.queues_keys
  case placed =>
    have hold := h.placed
    simp only [Controller.placedIds, List.map_nil, List.append_nil] at hold ⊢
    rw [hparked, hwaiting, hf]
    exact (hissued.append_left _).trans hold
  case entry => rw [hf, hid, hrec]; exact h.entry
  case parked_entry => rw [hparked, hf]; exact h.parked_entry
  case request_entry =>
    intro r hr
    simp only [List.append_nil, List.mem_append, hwaiting] at hr
    rw [hf]
    exact h.request_entry r (by
      rcases hr with hr | hr
      · simp [hr]
      · simp [hready r hr])
  case owned =>
    intro id hid
    simp only [List.map_nil, List.append_nil, List.mem_append, hwaiting, hmem] at hid
    rw [hf, ho]
    exact h.owned id (by simpa using hid)
  case owner_entry => rw [ho]; exact h.owner_entry
  case parked_line => rw [ho]; exact h.parked_line
  case pending => rw [ho, hout]; exact h.pending
  case pending_pos => rw [ho]; exact h.pending_pos
  case record_lt => rw [ho, hrec]; exact h.record_lt
  case frame_owns => rw [hfr, ho]; exact h.frame_owns
  case context_lt => rw [hctx, hrec]; exact h.context_lt
  case keyed => exact ⟨keyOf, by rw [hf]; exact hkf, by rw [ho]; exact hkr, by rw [hctx]; exact hkc⟩
  case queue_issued =>
    intro p q hpq
    rw [hq] at hpq
    rw [hmem, hf]
    exact h.queue_issued p q hpq
  case queue_line => rw [hq]; exact h.queue_line
  case issued_queue =>
    intro id hid
    rw [hf, hq]
    exact h.issued_queue id ((hmem id).mp hid)
  case held_line => simp
  case held_after => simp

theorem flush (h : m.Inv []) : ({ m with ctl := m.ctl.flush } : Machine τ).Inv [] := by
  obtain ⟨sent, completed, heq⟩ := m.ctl.flush_eq_with
  refine h.moved rfl ?_ ?_ ?_ ?_ ?_ ?_ m.ctl.issuedIds_flush m.ctl.ready_flush_subset <;>
    simp only [heq]

theorem execute (h : m.Inv []) {i : Nat} {batch : List Request} (hb : m.ctl.sent[i]? = some batch)
    (ran : List Request) : ({ m with ctl := m.ctl.execute i, ran } : Machine τ).Inv [] := by
  obtain ⟨sent, mailbox, store, heq⟩ := m.ctl.execute_eq_with i
  refine h.moved rfl ?_ ?_ ?_ ?_ ?_ ?_ (Controller.issuedIds_execute hb)
    (Controller.ready_execute_subset hb) <;> simp only [heq]

theorem receive (h : m.Inv []) : ({ m with ctl := m.ctl.receive } : Machine τ).Inv [] :=
  h.moved rfl rfl rfl rfl rfl rfl rfl m.ctl.issuedIds_receive fun _ hr => hr

theorem shut (h : m.Inv []) : ({ m with ctl := m.ctl.shut } : Machine τ).Inv [] :=
  h.moved rfl rfl rfl rfl rfl rfl rfl (List.Perm.refl _) fun _ hr => hr

/-! ## Issuing at a pair -/

/-- What the invariant knows of a held request: it is in flight, described by its entry, with
sequence number equal to its id, and its record owns its key. -/
theorem held_facts (h : m.Inv held) {r : Request} (hr : r ∈ held) :
    ∃ f, m.ctl.inFlight.get? r.id = some f ∧ f.Describes r ∧ r.sequence = r.id ∧
      m.ctl.ownership.Owns f.key f.record := by
  obtain ⟨f, hf, hd⟩ := h.request_entry r (by simp [hr])
  obtain ⟨f', hf', hown⟩ := h.owned r.id (by simp [List.mem_map_of_mem hr])
  rw [hf] at hf'
  cases hf'
  exact ⟨f, hf, hd, hd.2.2.symm.trans (h.entry r.id f hf).2.1, hown⟩

/-- The entry `v` of the pair of request `r` once `r` is issued from the held requests
`r :: held`, with `c` the controller after the issue: the pair queues differ in that entry
alone, which names an issued request of the pair, lists its waiting requests in increasing
order and below the other held requests, and is named by every issued request of the pair. -/
structure IssuedEntry (m : Machine τ) (held : List Request) (r : Request) (c : Controller τ)
    (v : PairQueue) : Prop where
  queues : c.queues.queues = m.ctl.queues.queues.set (r.key, r.state) v
  issued : v.issued ∈ c.issuedIds ∧
    ∃ f, m.ctl.inFlight.get? v.issued = some f ∧ (f.key, f.state) = (r.key, r.state)
  line : (v.issued :: v.waiting.map (·.id)).Pairwise (· < ·) ∧
    ∀ x ∈ v.waiting, (x.key, x.state) = (r.key, r.state)
  after : ∀ r' ∈ held, ∀ i ∈ v.issued :: v.waiting.map (·.id), i < r'.id
  unique : ∀ id ∈ c.issuedIds, ∀ f, m.ctl.inFlight.get? id = some f →
    (f.key, f.state) = (r.key, r.state) → v.issued = id

section Issue

variable {r : Request}

/-- At an idle pair the issued request is the pair's first, and issued at once. -/
theorem issue_entry_of_idle (h : m.Inv (r :: held)) (now : Nat)
    (hp : m.ctl.queues.queues.get? (r.key, r.state) = none) :
    IssuedEntry m held r (m.ctl.issue now r) ⟨r.sequence, []⟩ := by
  obtain ⟨f, hf, hd, hseq, -⟩ := h.held_facts (List.mem_cons_self ..)
  have hbelow : ∀ r' ∈ held, r.id < r'.id := fun r' hr' =>
    (List.pairwise_cons.mp h.held_line).1 r'.id (List.mem_map_of_mem hr')
  obtain ⟨-, -, hrd⟩ := (Controller.issue_moves now r h.queues_keys).resolve_right
    fun ⟨q, hq, _⟩ => by rw [hp] at hq; cases hq
  refine ⟨by simp [Controller.issue_of_idle hp, Controller.pushActive],
    ⟨?_, f, by rw [hseq]; exact hf, by rw [hd.1, hd.2.1]⟩, by simp, ?_, ?_⟩
  · simp only [hseq, Controller.issuedIds, hrd, List.map_append, List.mem_append]
    simp
  · intro r' hr' i hi
    simp only [List.map_nil, List.mem_singleton] at hi
    rw [hi, hseq]
    exact hbelow r' hr'
  · -- no other request of the pair is issued, since the pair had no entry
    intro id hid f' hf' hp'
    rcases Controller.mem_issuedIds_issue h.queues_keys hid with hid | rfl
    · obtain ⟨f'', q'', hf'', hq'', -⟩ := h.issued_queue id hid
      rw [hf'] at hf''
      cases hf''
      rw [hp'] at hq''
      simp [hp] at hq''
    · exact hseq

/-- At a busy pair the issued request joins the end of the pair's waiting line. -/
theorem issue_entry_of_busy {q : PairQueue} (h : m.Inv (r :: held)) (now : Nat)
    (hp : m.ctl.queues.queues.get? (r.key, r.state) = some q) :
    IssuedEntry m held r (m.ctl.issue now r) { q with waiting := q.waiting ++ [r] } := by
  have hbelow : ∀ r' ∈ held, r.id < r'.id := fun r' hr' =>
    (List.pairwise_cons.mp h.held_line).1 r'.id (List.mem_map_of_mem hr')
  have hafter := h.held_after r (List.mem_cons_self ..) q hp
  obtain ⟨hmem, f', hf', hp'⟩ := h.queue_issued _ q hp
  obtain ⟨hl, hw⟩ := h.queue_line _ q hp
  refine ⟨by simp [Controller.issue_of_busy hp],
    ⟨Controller.issuedIds_sub_issue h.queues_keys hmem, f', hf', hp'⟩, ⟨?_, ?_⟩, ?_, ?_⟩
  · simp only [List.map_append, List.map_cons, List.map_nil]
    rw [← List.cons_append, List.pairwise_append]
    exact ⟨hl, by simp, fun i hi j hj => by
      simp only [List.mem_singleton] at hj
      rw [hj]
      exact hafter i hi⟩
  · intro x hx
    simp only [List.mem_append, List.mem_singleton] at hx
    rcases hx with hx | rfl
    · exact hw x hx
    · rfl
  · intro r' hr' i hi
    simp only [List.map_append, List.map_cons, List.map_nil, ← List.cons_append,
      List.mem_append, List.mem_singleton] at hi
    rcases hi with hi | rfl
    · exact Nat.lt_trans (hafter i hi) (hbelow r' hr')
    · exact hbelow r' hr'
  · -- the issued requests are those before, and the pair's one names its entry
    intro id hid f'' hf'' hp''
    obtain ⟨_, _, _, hrd⟩ := (Controller.issue_moves now r h.queues_keys).resolve_left
      fun ⟨hq, _⟩ => by rw [hp] at hq; cases hq
    have hsame : (m.ctl.issue now r).issuedIds = m.ctl.issuedIds := by
      simp [Controller.issuedIds, hrd]
    rw [hsame] at hid
    obtain ⟨f3, q3, hf3, hq3, hi3⟩ := h.issued_queue id hid
    rw [hf''] at hf3
    cases hf3
    rw [hp'', hp] at hq3
    cases hq3
    exact hi3

theorem issue_entry (h : m.Inv (r :: held)) (now : Nat) :
    ∃ v, IssuedEntry m held r (m.ctl.issue now r) v := by
  cases hp : m.ctl.queues.queues.get? (r.key, r.state) with
  | none => exact ⟨_, h.issue_entry_of_idle now hp⟩
  | some q => exact ⟨_, h.issue_entry_of_busy now hp⟩

/-- Issuing the first held request at its pair keeps the invariant. -/
theorem issue (h : m.Inv (r :: held)) (now : Nat) :
    ({ m with ctl := m.ctl.issue now r } : Machine τ).Inv held := by
  have hk := h.queues_keys
  obtain ⟨f, hf, hd, -, -⟩ := h.held_facts (List.mem_cons_self ..)
  obtain ⟨v, he⟩ := h.issue_entry now
  obtain ⟨keyOf, hkf, hkr, hkc⟩ := h.keyed
  constructor
  case queue_issued =>
    simp only [Controller.issue_inFlight]
    rw [he.queues]
    refine Table.forall_get?_set he.issued fun p q _ hq => ?_
    obtain ⟨hmem, hrest⟩ := h.queue_issued p q hq
    exact ⟨Controller.issuedIds_sub_issue hk hmem, hrest⟩
  case queue_line =>
    rw [he.queues]
    exact Table.forall_get?_set he.line fun p q _ hq => h.queue_line p q hq
  case issued_queue =>
    intro id hid
    simp only [Controller.issue_inFlight]
    rw [he.queues]
    rcases Controller.mem_issuedIds_issue hk hid with hold | rfl
    · obtain ⟨f', q', hf', hq', hi⟩ := h.issued_queue id hold
      by_cases hpp : (r.key, r.state) = (f'.key, f'.state)
      · exact ⟨f', v, hf', by rw [← hpp, Table.get?_set_self], he.unique id hid f' hf' hpp.symm⟩
      · exact ⟨f', q', hf', by rw [Table.get?_set_ne _ _ hpp]; exact hq', hi⟩
    · have hpair : (f.key, f.state) = (r.key, r.state) := by rw [hd.1, hd.2.1]
      exact ⟨f, v, hf, by rw [hpair, Table.get?_set_self], he.unique _ hid f hf hpair⟩
  case held_line => exact (List.pairwise_cons.mp h.held_line).2
  case held_after =>
    intro r' hr' q' hq'
    rw [he.queues] at hq'
    by_cases hpp : (r.key, r.state) = (r'.key, r'.state)
    · rw [← hpp, Table.get?_set_self] at hq'
      cases hq'
      exact he.after r' hr'
    · rw [Table.get?_set_ne _ _ hpp] at hq'
      exact h.held_after r' (List.mem_cons_of_mem _ hr') q' hq'
  case inFlight_keys => simpa using h.inFlight_keys
  case owners_keys => simpa using h.owners_keys
  case queues_keys =>
    rw [he.queues]
    exact Table.nodup_keys_set hk _ v
  case placed =>
    simp only [Controller.issue_inFlight]
    refine (((Controller.placedIds_issue now r hk).append_right _).trans ?_).trans h.placed
    simpa using List.perm_middle.symm
  case entry => simpa using h.entry
  case parked_entry => simpa using h.parked_entry
  case request_entry =>
    -- a waiting or ready request was one before, or is the held request issued
    intro x hx
    simp only [List.mem_append] at hx
    simp only [Controller.issue_inFlight]
    refine h.request_entry x ?_
    simp only [List.mem_append, List.mem_cons]
    rcases hx with (hx | hx) | hx
    · rcases Controller.mem_waiting_issue hk hx with hx | rfl
      · exact .inl (.inl hx)
      · exact .inr (.inl rfl)
    · rcases Controller.mem_ready_issue hk hx with hx | rfl
      · exact .inl (.inr hx)
      · exact .inr (.inl rfl)
    · exact .inr (.inr hx)
  case owned =>
    intro id hid
    simp only [Controller.issue_inFlight, Controller.issue_ownership]
    refine h.owned id ?_
    simp only [List.mem_append, List.mem_map, List.map_cons, List.mem_cons] at hid ⊢
    rcases hid with (⟨x, hx, rfl⟩ | hid) | ⟨x, hx, rfl⟩
    · rcases Controller.mem_waiting_issue hk hx with hx | rfl
      · exact .inl (.inl ⟨x, hx, rfl⟩)
      · exact .inr (.inl rfl)
    · rcases Controller.mem_issuedIds_issue hk hid with hid | rfl
      · exact .inl (.inr hid)
      · exact .inr (.inl rfl)
    · exact .inr (.inr ⟨x, hx, rfl⟩)
  case owner_entry => simpa using h.owner_entry
  case parked_line => simpa using h.parked_line
  case pending => simpa [outstanding] using h.pending
  case pending_pos => simpa using h.pending_pos
  case record_lt => simpa using h.record_lt
  case frame_owns => simpa using h.frame_owns
  case context_lt => simpa [contexts] using h.context_lt
  case keyed => exact ⟨keyOf, by simpa using hkf, by simpa using hkr, by simpa [contexts] using hkc⟩

end Issue

/-- Issuing the held requests in order keeps the invariant. -/
theorem issueAll (h : m.Inv held) (now : Nat) :
    ({ m with ctl := held.foldl (fun c r => c.issue now r) m.ctl } : Machine τ).Inv [] := by
  induction held generalizing m with
  | nil => exact h
  | cons r rest ih => exact ih (h.issue now)

/-! ## Admitting a submitted request -/

section Admit

variable {ctx : RecordContext}

/-- No request in flight holds the next id. -/
theorem nextId_fresh (h : m.Inv held) : m.ctl.inFlight.get? m.ctl.nextId = none := by
  cases hg : m.ctl.inFlight.get? m.ctl.nextId with
  | none => rfl
  | some f => exact absurd (h.entry _ f hg).1 (Nat.lt_irrefl _)

/-- Adding the entry of the next id keeps every entry in flight. -/
theorem get?_set_nextId (h : m.Inv held) {id : Nat} {f : InFlight τ}
    (hf : m.ctl.inFlight.get? id = some f) (v : InFlight τ) :
    (m.ctl.inFlight.set m.ctl.nextId v).get? id = some f := by
  rw [Table.get?_set_ne _ _ (Nat.ne_of_gt (h.entry id f hf).1)]
  exact hf

/-- Every request at a pair, issued or waiting, has an id below the next one. -/
theorem line_lt_nextId (h : m.Inv held) {p : Nat × String} {q : PairQueue}
    (hq : m.ctl.queues.queues.get? p = some q) :
    ∀ i ∈ q.issued :: q.waiting.map (·.id), i < m.ctl.nextId := by
  intro i hi
  rcases List.mem_cons.mp hi with rfl | hi
  · obtain ⟨-, f, hf, -⟩ := h.queue_issued p q hq
    exact (h.entry _ f hf).1
  · obtain ⟨x, hx, rfl⟩ := List.mem_map.mp hi
    have hw : x ∈ m.ctl.waiting :=
      List.mem_flatMap.mpr ⟨(p, q), Table.mem_of_get?_eq_some hq, hx⟩
    obtain ⟨f, hf, -⟩ := h.request_entry x (by simp [hw])
    exact (h.entry _ f hf).1

/-- Every parked request has an id below the next one. -/
theorem parked_lt_nextId (h : m.Inv held) {x : Nat × Request} (hx : x ∈ m.ctl.parked) :
    x.2.id < m.ctl.nextId := by
  obtain ⟨f, hf, -⟩ := h.parked_entry x hx
  exact (h.entry _ f hf).1

/-- The current record's entry once it counts one more request keeps the current key. -/
theorem countOne_current (h : m.Inv held) (hctx : m.ctl.current = some ctx) :
    ∃ e', (m.ctl.ownership.countOne ctx.record ctx.key).get? ctx.record = some e' ∧
      e'.key = ctx.key := by
  obtain ⟨keyOf, -, hkr, hkc⟩ := h.keyed
  have hkctx : ctx.key = keyOf ctx.record := hkc ctx (mem_contexts.mpr (.inl hctx))
  refine ⟨_, Ownership.countOne_get?_self .., ?_⟩
  cases he : m.ctl.ownership.records.get? ctx.record with
  | none => rfl
  | some e => exact (hkr _ e he).trans hkctx.symm

/-- A record's entry once the current record counts one more request: the current record's,
with the current key, or the entry it had. -/
theorem countOne_cases (h : m.Inv held) (hctx : m.ctl.current = some ctx) {rec : Nat}
    {e' : RecordEntry} (he' : (m.ctl.ownership.countOne ctx.record ctx.key).get? rec = some e') :
    rec = ctx.record ∧ e'.key = ctx.key ∨ m.ctl.ownership.records.get? rec = some e' := by
  by_cases hrc : ctx.record = rec
  · subst hrc
    obtain ⟨e'', he'', hk⟩ := h.countOne_current hctx
    rw [he''] at he'
    cases he'
    exact .inl ⟨rfl, hk⟩
  · rw [Ownership.countOne_get?_ne _ _ hrc] at he'
    exact .inr he'

/-- Every record keeps an entry with its key when the current record counts one more request. -/
theorem countOne_old (h : m.Inv held) (hctx : m.ctl.current = some ctx) {rec : Nat}
    {e : RecordEntry} (he : m.ctl.ownership.records.get? rec = some e) :
    ∃ e', (m.ctl.ownership.countOne ctx.record ctx.key).get? rec = some e' ∧ e'.key = e.key := by
  obtain ⟨keyOf, -, hkr, hkc⟩ := h.keyed
  by_cases hrc : ctx.record = rec
  · subst hrc
    obtain ⟨e', he', hk'⟩ := h.countOne_current hctx
    exact ⟨e', he', hk'.trans ((hkc ctx (mem_contexts.mpr (.inl hctx))).trans (hkr _ e he).symm)⟩
  · exact ⟨e, by rw [Ownership.countOne_get?_ne _ _ hrc]; exact he, rfl⟩

/-- Claiming the key for a request with the next id keeps every parked line ordered and on its
key: a parked request joins the end of its key's line, with the largest id. -/
theorem parked_line_claim (h : m.Inv held) (record : Nat) {r : Request} (hid : r.id = m.ctl.nextId) :
    ∀ k ko', (m.ctl.ownership.claim record r).1.owners.get? k = some ko' →
      (ko'.parked.map (·.2.id)).Pairwise (· < ·) ∧ ∀ x ∈ ko'.parked, x.2.key = k := by
  intro k ko' hko'
  rcases Ownership.claim_owner_cases m.ctl.ownership record r k ko' hko' with
    ⟨ko, hko, -, hsame | ⟨rfl, happ⟩⟩ | ⟨-, -, rfl⟩
  · rw [hsame]
    exact h.parked_line k ko hko
  · obtain ⟨hl, hk⟩ := h.parked_line _ ko hko
    have hlt : ∀ x ∈ ko.parked, x.2.id < r.id := fun x hx => hid ▸
      h.parked_lt_nextId (List.mem_flatMap.mpr ⟨(_, ko), Table.mem_of_get?_eq_some hko, hx⟩)
    rw [happ]
    refine ⟨?_, fun x hx => ?_⟩
    · rw [List.map_append, List.pairwise_append]
      refine ⟨hl, by simp, fun i hi j hj => ?_⟩
      rw [List.map_singleton, List.mem_singleton] at hj
      obtain ⟨x, hx, rfl⟩ := List.mem_map.mp hi
      rw [hj]
      exact hlt x hx
    · rcases List.mem_append.mp hx with hx | hx
      · exact hk x hx
      · rw [List.mem_singleton.mp hx]
  · simp

/-- The current record counts one request more, the new one in flight under the next id. -/
theorem pending_countOne (h : m.Inv held) (v : InFlight τ) (hv : v.record = ctx.record)
    (rec : Nat) :
    (((m.ctl.ownership.countOne ctx.record ctx.key).get? rec).map (·.pending)).getD 0 =
      (m.ctl.inFlight.set m.ctl.nextId v).countP (fun e => e.2.record = rec) +
        m.frames.countP (fun fr => fr.record = rec) := by
  have hold := h.pending rec
  simp only [outstanding] at hold
  rw [Table.set_eq_append _ h.nextId_fresh, List.countP_append]
  by_cases hrc : ctx.record = rec
  · subst hrc
    rw [Ownership.countOne_get?_self]
    simp only [Option.map_some, Option.getD_some, List.countP_singleton, hv, decide_true,
      if_true]
    cases he : m.ctl.ownership.records.get? ctx.record <;> simp [he] at hold ⊢ <;> omega
  · rw [Ownership.countOne_get?_ne _ _ hrc]
    simp [hrc, hv, hold]

/-- Every record's entry keeps a positive count when the current record counts one more
request. -/
theorem pending_pos_countOne (h : m.Inv held) {rec : Nat} {e' : RecordEntry}
    (he' : (m.ctl.ownership.countOne ctx.record ctx.key).get? rec = some e') :
    0 < e'.pending := by
  by_cases hrc : ctx.record = rec
  · subst hrc
    rw [Ownership.countOne_get?_self] at he'
    cases he'
    exact Nat.succ_pos _
  · rw [Ownership.countOne_get?_ne _ _ hrc] at he'
    exact h.pending_pos _ _ he'

/-- Every record with an entry is still below the next record when the current record counts
one more request. -/
theorem record_lt_countOne (h : m.Inv held) (hctx : m.ctl.current = some ctx) {rec : Nat}
    {e' : RecordEntry} (he' : (m.ctl.ownership.countOne ctx.record ctx.key).get? rec = some e') :
    rec < m.ctl.nextRecord := by
  rcases h.countOne_cases hctx he' with ⟨rfl, -⟩ | he'
  · exact h.context_lt ctx (mem_contexts.mpr (.inl hctx))
  · exact h.record_lt _ _ he'

/-- Every record's entry keeps its record's key when the current record counts one more
request. -/
theorem key_countOne (h : m.Inv held) (hctx : m.ctl.current = some ctx) {keyOf : Nat → Nat}
    (hkr : ∀ r e, m.ctl.ownership.records.get? r = some e → e.key = keyOf r)
    (hkc : ∀ c ∈ m.contexts, c.key = keyOf c.record) {rec : Nat} {e' : RecordEntry}
    (he' : (m.ctl.ownership.countOne ctx.record ctx.key).get? rec = some e') :
    e'.key = keyOf rec := by
  rcases h.countOne_cases hctx he' with ⟨rfl, hk⟩ | he'
  · exact hk.trans (hkc ctx (mem_contexts.mpr (.inl hctx)))
  · exact hkr _ _ he'

/-- A submission counts a new request in flight and against the current record, and key
ownership lets it through, to be issued next, or parks it. -/
theorem admitted (h : m.Inv []) (hctx : m.ctl.current = some ctx)
    (state : String) (kind : StateKind) (rt : RequestType) (ns : Bytes) (payload : Payload)
    (promise : τ) :
    ({ m with ctl := { m.ctl with
        nextId := m.ctl.nextId + 1,
        inFlight := m.ctl.inFlight.set m.ctl.nextId ⟨ctx.record, ctx.key, state, m.ctl.nextId, promise⟩,
        ownership := (m.ctl.ownership.claim ctx.record
          (m.ctl.nextRequest ctx state kind rt ns payload)).1 } } : Machine τ).Inv
      (m.ctl.ownership.claim ctx.record (m.ctl.nextRequest ctx state kind rt ns payload)).2.toList := by
  have hrec := Ownership.claim_records m.ctl.ownership ctx.record
    (m.ctl.nextRequest ctx state kind rt ns payload)
  have hkeys := Ownership.nodup_keys_claim ctx.record
    (m.ctl.nextRequest ctx state kind rt ns payload) h.owners_keys
  have howners := Ownership.claim_owner_cases m.ctl.ownership ctx.record
    (m.ctl.nextRequest ctx state kind rt ns payload)
  have hown : ∀ k owner, m.ctl.ownership.Owns k owner → Ownership.Owns
      (m.ctl.ownership.claim ctx.record (m.ctl.nextRequest ctx state kind rt ns payload)).1 k owner :=
    fun _ _ hk => Ownership.claim_owns _ _ hk
  have hparked := Ownership.claim_parked_perm ctx.record
    (m.ctl.nextRequest ctx state kind rt ns payload) h.owners_keys
  have hparked_mem := @Ownership.mem_parked_claim m.ctl.ownership ctx.record
    (m.ctl.nextRequest ctx state kind rt ns payload) h.owners_keys
  have hheld := Ownership.claim_let_through m.ctl.ownership ctx.record
    (m.ctl.nextRequest ctx state kind rt ns payload)
  have hline := h.parked_line_claim ctx.record
    (Controller.nextRequest_id m.ctl ctx state kind rt ns payload)
  simp only [Controller.nextRequest_key, Controller.nextRequest_id] at hrec howners hparked hheld
  generalize (m.ctl.ownership.claim ctx.record (m.ctl.nextRequest ctx state kind rt ns payload)).1
    = o' at *
  generalize (m.ctl.ownership.claim ctx.record (m.ctl.nextRequest ctx state kind rt ns payload)).2.toList
    = held' at *
  obtain ⟨keyOf, hkf, hkr, hkc⟩ := h.keyed
  have hkctx : ctx.key = keyOf ctx.record := hkc ctx (mem_contexts.mpr (.inl hctx))
  have hctx_lt : ctx.record < m.ctl.nextRecord := h.context_lt ctx (mem_contexts.mpr (.inl hctx))
  have hFr : InFlight.Describes (⟨ctx.record, ctx.key, state, m.ctl.nextId, promise⟩ : InFlight τ)
      (m.ctl.nextRequest ctx state kind rt ns payload) := ⟨rfl, rfl, rfl⟩
  have hget_new : (m.ctl.inFlight.set m.ctl.nextId
      ⟨ctx.record, ctx.key, state, m.ctl.nextId, promise⟩).get? m.ctl.nextId =
      some ⟨ctx.record, ctx.key, state, m.ctl.nextId, promise⟩ := Table.get?_set_self ..
  constructor
  case inFlight_keys => exact Table.nodup_keys_set h.inFlight_keys _ _
  case owners_keys => exact hkeys
  case queues_keys => exact h.queues_keys
  case placed =>
    simp only [Table.set_eq_append _ h.nextId_fresh, Table.keys_append, Table.keys_cons,
      Table.keys_nil]
    refine List.perm_iff_count.mpr fun a => ?_
    have h1 := hparked.count_eq a
    have h2 := h.placed.count_eq a
    simp only [Controller.placedIds, Controller.parked, Controller.waiting, Controller.issuedIds,
      Controller.ready, Controller.finished, List.map_nil, List.append_nil,
      List.count_append] at h1 h2 ⊢
    omega
  case entry =>
    intro id f hf
    rcases Table.get?_set_cases hf with ⟨rfl, rfl⟩ | hf
    · exact ⟨Nat.lt_succ_self _, rfl, hctx_lt⟩
    · obtain ⟨h1, h2, h3⟩ := h.entry id f hf
      exact ⟨Nat.lt_succ_of_lt h1, h2, h3⟩
  case parked_entry =>
    intro x hx
    rcases hparked_mem hx with hx | rfl
    · obtain ⟨f, hf, h1, h2⟩ := h.parked_entry x hx
      exact ⟨f, h.get?_set_nextId hf _, h1, h2⟩
    · exact ⟨_, hget_new, rfl, hFr⟩
  case request_entry =>
    intro x hx
    rcases List.mem_append.mp hx with hx | hx
    · obtain ⟨f, hf, hd⟩ := h.request_entry x (List.mem_append_left _ hx)
      exact ⟨f, h.get?_set_nextId hf _, hd⟩
    · rcases hheld with rfl | ⟨rfl, -⟩
      · cases hx
      · rw [List.mem_singleton.mp hx]
        exact ⟨_, hget_new, hFr⟩
  case owned =>
    intro id hid
    rcases List.mem_append.mp hid with hid | hid
    · obtain ⟨f, hf, hown0⟩ := h.owned id (List.mem_append_left _ hid)
      exact ⟨f, h.get?_set_nextId hf _, hown _ _ hown0⟩
    · rcases hheld with rfl | ⟨rfl, hr_own⟩
      · cases hid
      · rw [List.map_singleton, List.mem_singleton] at hid
        subst hid
        exact ⟨_, hget_new, hr_own⟩
  case owner_entry =>
    intro k ko' hko'
    rw [hrec]
    rcases howners k ko' hko' with ⟨ko, hko, hsame, -⟩ | ⟨-, rfl, rfl⟩
    · obtain ⟨e, he, hek⟩ := h.owner_entry k ko hko
      obtain ⟨e', he', hk'⟩ := h.countOne_old hctx he
      exact ⟨e', by rw [hsame]; exact he', hk'.trans hek⟩
    · exact h.countOne_current hctx
  case parked_line => exact hline
  case pending =>
    intro rec
    simp only [outstanding, hrec]
    exact h.pending_countOne _ rfl rec
  case pending_pos =>
    intro rec e' he'
    rw [hrec] at he'
    exact h.pending_pos_countOne he'
  case record_lt =>
    intro rec e' he'
    rw [hrec] at he'
    exact h.record_lt_countOne hctx he'
  case frame_owns =>
    intro fr hfr
    obtain ⟨e, he, hown0⟩ := h.frame_owns fr hfr
    obtain ⟨e', he', hk⟩ := h.countOne_old hctx he
    exact ⟨e', by rw [hrec]; exact he', hk ▸ hown _ _ hown0⟩
  case context_lt => exact h.context_lt
  case keyed =>
    refine ⟨keyOf, fun id f hf => ?_, fun rec e' he' => ?_, hkc⟩
    · rcases Table.get?_set_cases hf with ⟨-, rfl⟩ | hf
      · exact hkctx
      · exact hkf id f hf
    · rw [hrec] at he'
      exact h.key_countOne hctx hkr hkc he'
  case queue_issued =>
    intro p q hq
    obtain ⟨hmem, f, hf, hp⟩ := h.queue_issued p q hq
    exact ⟨hmem, f, h.get?_set_nextId hf _, hp⟩
  case queue_line => exact h.queue_line
  case issued_queue =>
    intro id hid
    obtain ⟨f, q, hf, hq, hi⟩ := h.issued_queue id hid
    exact ⟨f, q, h.get?_set_nextId hf _, hq, hi⟩
  case held_line => rcases hheld with rfl | ⟨rfl, -⟩ <;> simp
  case held_after =>
    rcases hheld with rfl | ⟨rfl, -⟩
    · simp
    · intro x hx q hq i hi
      rw [List.mem_singleton.mp hx]
      exact h.line_lt_nextId hq i hi

end Admit

/-! ## Taking a completion -/

/-- The completion `comp` is the first collected one, of the request in flight `f`, the issued
request of its pair, whose entry is `q`; `c₂` is the controller once the request has left the
in-flight table and the collected completions, and its pair has released its next waiting
request. -/
structure Taking (m : Machine τ) (now : Nat) (comp : Completion) (rest : List Completion)
    (f : InFlight τ) (q : PairQueue) (c₂ : Controller τ) : Prop where
  completed : m.ctl.completed = comp :: rest
  inFlight : m.ctl.inFlight.get? comp.id = some f
  queue : m.ctl.queues.queues.get? (f.key, f.state) = some q
  issued : q.issued = comp.id
  released : c₂ = ({ m.ctl with completed := rest, inFlight := m.ctl.inFlight.erase comp.id } :
    Controller τ).releasePair now f.key f.state

/-- Every collected completion's request is in flight, so the completion taken is the first
collected one, and its request is the issued one of its pair. -/
theorem taking (h : m.Inv []) {now : Nat} {comp : Completion} {f : InFlight τ}
    {previous : Option RecordContext} {c' : Controller τ}
    (hb : m.ctl.beginCompletion now = some (comp, f, previous, c')) :
    ∃ rest q c₂, Taking m now comp rest f q c₂ ∧ previous = m.ctl.current ∧
      c' = { c₂ with current := some ⟨f.record, f.key⟩ } := by
  obtain ⟨pre, rest, hcomp, hpre, hf, rfl, rfl⟩ := Controller.beginCompletion_eq_some hb
  obtain rfl : pre = [] := by
    cases pre with
    | nil => rfl
    | cons x xs =>
      obtain ⟨f', hf'⟩ := h.inFlight_of_placed
        (show x.id ∈ m.ctl.placedIds ++ ([] : List Request).map (·.id) by
          simp [Controller.placedIds, Controller.issuedIds, Controller.finished, hcomp])
      rw [hpre x (List.mem_cons_self ..)] at hf'
      cases hf'
  rw [List.nil_append] at hcomp
  have hcomp_issued : comp.id ∈ m.ctl.issuedIds := by
    simp [Controller.issuedIds, Controller.finished, hcomp]
  obtain ⟨f', q, hf', hq, hqi⟩ := h.issued_queue comp.id hcomp_issued
  rw [hf] at hf'
  cases hf'
  exact ⟨rest, q, _, ⟨hcomp, hf, hq, hqi, rfl⟩, rfl, rfl⟩

/-- The contexts once a completion of `f` begins: its record's, or one there was. -/
theorem mem_contexts_begin {c₂ : Controller τ} {f : InFlight τ} {comp : Completion}
    {ctx : RecordContext}
    (hctx : ctx ∈ ({ m with
      ctl := { c₂ with current := some ⟨f.record, f.key⟩ },
      frames := ⟨f.record, m.ctl.current⟩ :: m.frames, taken := m.taken ++ [comp] } :
        Machine τ).contexts) :
    ctx = ⟨f.record, f.key⟩ ∨ ctx ∈ m.contexts := by
  rcases mem_contexts.mp hctx with hcur | ⟨fr, hfr, hprev⟩
  · cases hcur
    exact .inl rfl
  · rcases List.mem_cons.mp hfr with rfl | hfr
    · exact .inr (mem_contexts.mpr (.inl hprev))
    · exact .inr (mem_contexts.mpr (.inr ⟨fr, hfr, hprev⟩))

namespace Taking

variable {now : Nat} {comp : Completion} {rest : List Completion} {f : InFlight τ}
  {q : PairQueue} {c₂ : Controller τ}

/-- The requests placed afterwards are those placed before, but the completing one. -/
theorem placedIds_perm (h : m.Inv []) (ht : Taking m now comp rest f q c₂) :
    (comp.id :: c₂.placedIds).Perm m.ctl.placedIds := by
  obtain ⟨-, hown, -, -, -, hfin, hW, -⟩ :=
    Controller.completion_moves ht.released h.queues_keys ht.queue
  have hparked : c₂.parked = m.ctl.parked := by simp [Controller.parked, hown]
  refine List.perm_iff_count.mpr fun a => ?_
  have h1 := (hW.map (·.id)).count_eq a
  simp only [Controller.placedIds, Controller.issuedIds, hparked]
  rw [hfin, Controller.finished, ht.completed]
  simp only [List.map_append, List.map_cons, List.count_append, List.count_cons] at h1 ⊢
  omega

theorem not_mem_placedIds (h : m.Inv []) (ht : Taking m now comp rest f q c₂) :
    comp.id ∉ c₂.placedIds :=
  (List.nodup_cons.mp ((ht.placedIds_perm h).nodup_iff.mpr (by simpa using h.placed_nodup))).1

/-- A request placed afterwards keeps its entry in flight. -/
theorem get?_of_placed (h : m.Inv []) (ht : Taking m now comp rest f q c₂) {id : Nat}
    (hid : id ∈ c₂.placedIds) : c₂.inFlight.get? id = m.ctl.inFlight.get? id := by
  obtain ⟨hin, -⟩ := Controller.completion_moves ht.released h.queues_keys ht.queue
  rw [hin, Table.get?_erase_ne _ fun (heq : comp.id = id) => ht.not_mem_placedIds h (heq ▸ hid)]

/-- Every entry in flight afterwards was in flight before. -/
theorem get?_sub (h : m.Inv []) (ht : Taking m now comp rest f q c₂) {id : Nat}
    {f' : InFlight τ} (hget : c₂.inFlight.get? id = some f') :
    m.ctl.inFlight.get? id = some f' := by
  obtain ⟨hin, -⟩ := Controller.completion_moves ht.released h.queues_keys ht.queue
  rw [hin] at hget
  by_cases hid : comp.id = id
  · subst hid
    rw [Table.get?_erase_self] at hget
    cases hget
  · rwa [Table.get?_erase_ne _ hid] at hget

/-- What is let through afterwards was let through before. -/
theorem mem_let_through (h : m.Inv []) (ht : Taking m now comp rest f q c₂) {id : Nat}
    (hid : id ∈ c₂.waiting.map (·.id) ++ c₂.issuedIds) :
    id ∈ m.ctl.waiting.map (·.id) ++ m.ctl.issuedIds := by
  obtain ⟨-, -, -, -, -, hfin, hW, -⟩ :=
    Controller.completion_moves ht.released h.queues_keys ht.queue
  have hwr : ∀ x ∈ c₂.waiting ++ c₂.ready, x.id ∈ m.ctl.waiting.map (·.id) ++ m.ctl.issuedIds :=
    fun x hx => by
      rcases List.mem_append.mp (hW.mem_iff.mp hx) with hx' | hx'
      · exact List.mem_append_left _ (List.mem_map_of_mem hx')
      · exact List.mem_append_right _ (List.mem_append_left _ (List.mem_map_of_mem hx'))
  simp only [Controller.issuedIds, List.mem_append, List.mem_map] at hid
  rcases hid with ⟨x, hx, rfl⟩ | ⟨x, hx, rfl⟩ | ⟨x, hx, rfl⟩
  · exact hwr x (List.mem_append_left _ hx)
  · exact hwr x (List.mem_append_right _ hx)
  · -- a completion left over was collected before
    rw [hfin] at hx
    refine List.mem_append_right _ (List.mem_append_right _ (List.mem_map_of_mem ?_))
    simp only [Controller.finished, ht.completed, List.mem_append, List.mem_cons] at hx ⊢
    rcases hx with hx | hx
    · exact .inl hx
    · exact .inr (.inr hx)

/-- Issuing keeps every issued request issued but the completing one. -/
theorem issuedIds_sub (h : m.Inv []) (ht : Taking m now comp rest f q c₂) {id : Nat}
    (hid : id ∈ m.ctl.issuedIds) (hne : id ≠ comp.id) : id ∈ c₂.issuedIds := by
  obtain ⟨-, -, -, -, -, hfin, -, hRold, -⟩ :=
    Controller.completion_moves ht.released h.queues_keys ht.queue
  simp only [Controller.issuedIds, Controller.finished, ht.completed, List.map_append,
    List.map_cons, List.mem_append, List.mem_cons] at hid
  simp only [Controller.issuedIds, hfin, List.map_append, List.mem_append]
  rcases hid with hid | hid | hid | hid
  · obtain ⟨x, hx, hxi⟩ := List.mem_map.mp hid
    exact .inl (hxi ▸ List.mem_map_of_mem (hRold x hx))
  · exact .inr (.inl hid)
  · exact absurd hid hne
  · exact .inr (.inr hid)

/-- What is issued afterwards: an issued request other than the completing one, or the request
the pair released. -/
theorem mem_issuedIds (h : m.Inv []) (ht : Taking m now comp rest f q c₂) {id : Nat}
    (hid : id ∈ c₂.issuedIds) :
    (id ∈ m.ctl.issuedIds ∧ id ≠ comp.id) ∨ ∃ n rest', q.waiting = n :: rest' ∧ n.id = id := by
  obtain ⟨-, -, -, -, -, hfin, -, -, hRnew, -⟩ :=
    Controller.completion_moves ht.released h.queues_keys ht.queue
  have hne : id ≠ comp.id := fun heq =>
    ht.not_mem_placedIds h (heq ▸ List.mem_append_right _ hid)
  rcases List.mem_append.mp hid with hid' | hid'
  · obtain ⟨x, hx, rfl⟩ := List.mem_map.mp hid'
    rcases hRnew x hx with hx' | hx'
    · exact .inl ⟨List.mem_append_left _ (List.mem_map_of_mem hx'), hne⟩
    · cases hw : q.waiting with
      | nil => simp [hw] at hx'
      | cons n rest' =>
        simp only [hw, List.head?_cons, Option.some.injEq] at hx'
        exact .inr ⟨n, rest', rfl, by rw [hx']⟩
  · obtain ⟨x, hx, rfl⟩ := List.mem_map.mp hid'
    rw [hfin] at hx
    refine .inl ⟨List.mem_append_right _ (List.mem_map_of_mem ?_), hne⟩
    simp only [Controller.finished, ht.completed, List.mem_append, List.mem_cons] at hx ⊢
    rcases hx with hx | hx
    · exact .inl hx
    · exact .inr (.inr hx)

/-- The request the pair releases was waiting there: in flight, numbered by its id, on the
pair, and not the completing one. -/
theorem next (h : m.Inv []) (ht : Taking m now comp rest f q c₂) {n : Request}
    {rest' : List Request} (hw : q.waiting = n :: rest') :
    n.sequence = n.id ∧ n.id ≠ comp.id ∧
      ∃ fn, m.ctl.inFlight.get? n.id = some fn ∧ (fn.key, fn.state) = (f.key, f.state) := by
  have hn : n ∈ m.ctl.waiting :=
    List.mem_flatMap.mpr ⟨_, Table.mem_of_get?_eq_some ht.queue, by simp [hw]⟩
  obtain ⟨fn, hfn, hd⟩ := h.request_entry n (by simp [hn])
  have hpair := (h.queue_line _ q ht.queue).2 n (by simp [hw])
  -- the pair's line is ordered, so what waits comes after the issued request
  have hne : n.id ≠ comp.id := by
    have hline := (h.queue_line _ q ht.queue).1
    rw [hw, ht.issued] at hline
    exact Nat.ne_of_gt (List.rel_of_pairwise_cons hline (List.mem_cons_self ..))
  refine ⟨hd.2.2.symm.trans (h.entry _ fn hfn).2.1, hne, fn, hfn, ?_⟩
  rw [hd.1, hd.2.1]
  exact hpair

/-- Every pair's entry afterwards names an issued request of the pair. -/
theorem queue_issued (h : m.Inv []) (ht : Taking m now comp rest f q c₂) :
    ∀ p q', c₂.queues.queues.get? p = some q' → q'.issued ∈ c₂.issuedIds ∧
      ∃ fq, c₂.inFlight.get? q'.issued = some fq ∧ (fq.key, fq.state) = p := by
  obtain ⟨-, -, -, -, -, -, -, -, -, hQother, hQpair, -⟩ :=
    Controller.completion_moves ht.released h.queues_keys ht.queue
  intro p q' hq'
  by_cases hp : (f.key, f.state) = p
  · -- the completing request's pair: the released request is its issued one
    subst hp
    rcases hQpair with ⟨-, hnone⟩ | ⟨n, rest', hw, hsome, hn⟩
    · rw [hnone] at hq'
      cases hq'
    · rw [hsome] at hq'
      cases hq'
      obtain ⟨hseq, -, fn, hfn, hpair⟩ := ht.next h hw
      have hmem : n.id ∈ c₂.issuedIds := List.mem_append_left _ (List.mem_map_of_mem hn)
      refine ⟨by rw [hseq]; exact hmem, fn, ?_, hpair⟩
      rw [hseq, ht.get?_of_placed h (List.mem_append_right _ hmem)]
      exact hfn
  · rw [hQother p hp] at hq'
    obtain ⟨hmem, fq, hfq, hpq⟩ := h.queue_issued p q' hq'
    have hne : q'.issued ≠ comp.id := by
      intro heq
      rw [heq, ht.inFlight] at hfq
      cases hfq
      exact hp hpq
    have hmem' := ht.issuedIds_sub h hmem hne
    refine ⟨hmem', fq, ?_, hpq⟩
    rw [ht.get?_of_placed h (List.mem_append_right _ hmem')]
    exact hfq

/-- Every pair's waiting line afterwards is ordered and on the pair. -/
theorem queue_line (h : m.Inv []) (ht : Taking m now comp rest f q c₂) :
    ∀ p q', c₂.queues.queues.get? p = some q' →
      (q'.issued :: q'.waiting.map (·.id)).Pairwise (· < ·) ∧
        ∀ r ∈ q'.waiting, (r.key, r.state) = p := by
  obtain ⟨-, -, -, -, -, -, -, -, -, hQother, hQpair, -⟩ :=
    Controller.completion_moves ht.released h.queues_keys ht.queue
  intro p q' hq'
  by_cases hp : (f.key, f.state) = p
  · -- the released request heads what was the pair's waiting line
    subst hp
    rcases hQpair with ⟨-, hnone⟩ | ⟨n, rest', hw, hsome, -⟩
    · rw [hnone] at hq'
      cases hq'
    · rw [hsome] at hq'
      cases hq'
      obtain ⟨hline, hpairs⟩ := h.queue_line _ q ht.queue
      rw [hw] at hline hpairs
      refine ⟨?_, fun x hx => hpairs x (List.mem_cons_of_mem _ hx)⟩
      rw [(ht.next h hw).1]
      exact (List.pairwise_cons.mp hline).2
  · rw [hQother p hp] at hq'
    exact h.queue_line p q' hq'

/-- Every issued request afterwards is named by its pair's entry. -/
theorem issued_queue (h : m.Inv []) (ht : Taking m now comp rest f q c₂) :
    ∀ id ∈ c₂.issuedIds, ∃ fi qi, c₂.inFlight.get? id = some fi ∧
      c₂.queues.queues.get? (fi.key, fi.state) = some qi ∧ qi.issued = id := by
  obtain ⟨-, -, -, -, -, -, -, -, -, hQother, hQpair, -⟩ :=
    Controller.completion_moves ht.released h.queues_keys ht.queue
  intro id hid
  rw [ht.get?_of_placed h (List.mem_append_right _ hid)]
  rcases ht.mem_issuedIds h hid with ⟨hold, hne⟩ | ⟨n, rest', hw, rfl⟩
  · -- an old issued request of another pair keeps its entry
    obtain ⟨fi, qi, hfi, hqi', hqi_eq⟩ := h.issued_queue id hold
    have hp : (f.key, f.state) ≠ (fi.key, fi.state) := by
      intro hp
      rw [← hp, ht.queue] at hqi'
      cases hqi'
      exact hne (hqi_eq.symm.trans ht.issued)
    exact ⟨fi, qi, hfi, by rw [hQother _ hp]; exact hqi', hqi_eq⟩
  · obtain ⟨hseq, -, fn, hfn, hpair⟩ := ht.next h hw
    rcases hQpair with ⟨hw', -⟩ | ⟨n', rest'', hw', hsome, -⟩
    · rw [hw] at hw'
      cases hw'
    · rw [hw] at hw'
      cases hw'
      exact ⟨fn, ⟨n.sequence, rest'⟩, hfn, by rw [hpair]; exact hsome, hseq⟩

/-- The completing request's count moves from the in-flight table to its frame. -/
theorem pending (h : m.Inv []) (ht : Taking m now comp rest f q c₂) (r : Nat) :
    ((c₂.ownership.records.get? r).map (·.pending)).getD 0 =
      c₂.inFlight.countP (fun e => e.2.record = r) +
        (⟨f.record, m.ctl.current⟩ :: m.frames).countP (fun fr => fr.record = r) := by
  obtain ⟨hin, hown, -⟩ := Controller.completion_moves ht.released h.queues_keys ht.queue
  have hcount := (Table.perm_cons_erase h.inFlight_keys ht.inFlight).countP_eq
    (fun e => e.2.record = r)
  rw [hown, hin, h.pending r]
  unfold outstanding
  by_cases hr : f.record = r <;> simp [hr] at hcount ⊢ <;> omega

/-- The completing request's record owns its key, and has an entry with that key. -/
theorem frame_owns (h : m.Inv []) (ht : Taking m now comp rest f q c₂) :
    ∃ e, m.ctl.ownership.records.get? f.record = some e ∧
      m.ctl.ownership.Owns e.key f.record := by
  obtain ⟨keyOf, hkf, hkr, -⟩ := h.keyed
  obtain ⟨e, he⟩ := h.record_of_inFlight ht.inFlight
  obtain ⟨f'', hf'', hfo⟩ := h.owned comp.id
    (by simp [Controller.issuedIds, Controller.finished, ht.completed])
  rw [ht.inFlight, Option.some.injEq] at hf''
  subst hf''
  refine ⟨e, he, ?_⟩
  rw [hkr _ e he, ← hkf _ _ ht.inFlight]
  exact hfo

/-- A request parked afterwards was parked before, and keeps its entry in flight. -/
theorem parked_entry (h : m.Inv []) (ht : Taking m now comp rest f q c₂) :
    ∀ x ∈ c₂.parked, ∃ fx, c₂.inFlight.get? x.2.id = some fx ∧ fx.record = x.1 ∧
      fx.Describes x.2 := by
  obtain ⟨-, hown, -⟩ := Controller.completion_moves ht.released h.queues_keys ht.queue
  have hparked : c₂.parked = m.ctl.parked := by simp [Controller.parked, hown]
  intro x hx
  obtain ⟨fx, hfx, h1, h2⟩ := h.parked_entry x (hparked ▸ hx)
  refine ⟨fx, ?_, h1, h2⟩
  rw [ht.get?_of_placed h (List.mem_append_left _ (List.mem_append_left _
    (List.mem_map_of_mem hx)))]
  exact hfx

/-- A request waiting or ready afterwards was waiting or ready before, and keeps its entry. -/
theorem request_entry (h : m.Inv []) (ht : Taking m now comp rest f q c₂) :
    ∀ x ∈ c₂.waiting ++ c₂.ready, ∃ fx, c₂.inFlight.get? x.id = some fx ∧ fx.Describes x := by
  obtain ⟨-, -, -, -, -, -, hW, -⟩ :=
    Controller.completion_moves ht.released h.queues_keys ht.queue
  intro x hx
  obtain ⟨fx, hfx, hd⟩ := h.request_entry x (by simpa using hW.mem_iff.mp hx)
  refine ⟨fx, ?_, hd⟩
  have hplaced : x.id ∈ c₂.placedIds := by
    simp only [Controller.placedIds, Controller.issuedIds, Controller.ready, List.mem_append,
      List.mem_map] at hx ⊢
    rcases hx with hx | hx
    · exact .inl (.inr ⟨x, hx, rfl⟩)
    · exact .inr (.inl ⟨x, by simpa using hx, rfl⟩)
  rw [ht.get?_of_placed h hplaced]
  exact hfx

/-- What is let through afterwards keeps its entry, whose record owns its key. -/
theorem owned (h : m.Inv []) (ht : Taking m now comp rest f q c₂) :
    ∀ id ∈ c₂.waiting.map (·.id) ++ c₂.issuedIds, ∃ fi, c₂.inFlight.get? id = some fi ∧
      c₂.ownership.Owns fi.key fi.record := by
  obtain ⟨-, hown, -⟩ := Controller.completion_moves ht.released h.queues_keys ht.queue
  intro id hidl
  obtain ⟨fi, hfi, hfo⟩ := h.owned id (by simpa using ht.mem_let_through h hidl)
  have hplaced : id ∈ c₂.placedIds := by
    simp only [Controller.placedIds, List.mem_append] at hidl ⊢
    rcases hidl with hidl | hidl
    · exact .inl (.inr hidl)
    · exact .inr hidl
  rw [ht.get?_of_placed h hplaced, hown]
  exact ⟨fi, hfi, hfo⟩

end Taking

/-- Taking a completion keeps the invariant: the request leaves the in-flight table and the
collected completions, its pair issues the next waiting request, and the request's count moves
from the in-flight table to the new frame, whose record owns the request's key. -/
theorem begin (h : m.Inv []) {now : Nat} {comp : Completion} {f : InFlight τ}
    {previous : Option RecordContext} {c' : Controller τ}
    (hb : m.ctl.beginCompletion now = some (comp, f, previous, c')) :
    ({ m with ctl := c', frames := ⟨f.record, previous⟩ :: m.frames, taken := m.taken ++ [comp] } :
      Machine τ).Inv [] := by
  obtain ⟨rest, q, c₂, ht, rfl, rfl⟩ := h.taking hb
  obtain ⟨hin, hown, -, hid, hrec, -, -, -, -, -, -, hQkeys⟩ :=
    Controller.completion_moves ht.released h.queues_keys ht.queue
  obtain ⟨keyOf, hkf, hkr, hkc⟩ := h.keyed
  constructor
  case inFlight_keys =>
    show c₂.inFlight.keys.Nodup
    rw [hin]
    exact Table.nodup_keys_erase h.inFlight_keys _
  case owners_keys =>
    show c₂.ownership.owners.keys.Nodup
    rw [hown]
    exact h.owners_keys
  case queues_keys => exact hQkeys
  case placed =>
    -- cancel the completing request from both sides
    show (c₂.placedIds ++ []).Perm c₂.inFlight.keys
    have hkeys : m.ctl.inFlight.keys.Perm (comp.id :: (m.ctl.inFlight.erase comp.id).keys) :=
      (Table.perm_cons_erase h.inFlight_keys ht.inFlight).map Prod.fst
    rw [List.append_nil, hin]
    exact (List.perm_cons comp.id).mp
      (((ht.placedIds_perm h).trans (by simpa using h.placed)).trans hkeys)
  case entry =>
    intro id f'' hget
    show id < c₂.nextId ∧ f''.sequence = id ∧ f''.record < c₂.nextRecord
    rw [hid, hrec]
    exact h.entry id f'' (ht.get?_sub h hget)
  case parked_entry => exact (ht.parked_entry h :)
  case request_entry =>
    intro x hx
    rw [List.append_nil] at hx
    exact ht.request_entry h x hx
  case owned =>
    intro id hidl
    rw [List.map_nil, List.append_nil] at hidl
    exact ht.owned h id hidl
  case owner_entry =>
    show ∀ k ko, c₂.ownership.owners.get? k = some ko →
      ∃ e, c₂.ownership.records.get? ko.record = some e ∧ e.key = k
    rw [hown]
    exact h.owner_entry
  case parked_line =>
    show ∀ k ko, c₂.ownership.owners.get? k = some ko →
      (ko.parked.map (·.2.id)).Pairwise (· < ·) ∧ ∀ x ∈ ko.parked, x.2.key = k
    rw [hown]
    exact h.parked_line
  case pending => exact (ht.pending h :)
  case pending_pos =>
    show ∀ r e, c₂.ownership.records.get? r = some e → 0 < e.pending
    rw [hown]
    exact h.pending_pos
  case record_lt =>
    show ∀ r e, c₂.ownership.records.get? r = some e → r < c₂.nextRecord
    rw [hown, hrec]
    exact h.record_lt
  case frame_owns =>
    intro fr hfr
    show ∃ e, c₂.ownership.records.get? fr.record = some e ∧ c₂.ownership.Owns e.key fr.record
    rw [hown]
    rcases List.mem_cons.mp hfr with rfl | hfr
    · exact ht.frame_owns h
    · exact h.frame_owns fr hfr
  case context_lt =>
    intro ctx hctx
    show ctx.record < c₂.nextRecord
    rw [hrec]
    rcases mem_contexts_begin hctx with rfl | hctx
    · exact (h.entry _ f ht.inFlight).2.2
    · exact h.context_lt ctx hctx
  case keyed =>
    refine ⟨keyOf, fun id f'' hget => hkf id f'' (ht.get?_sub h hget), fun r e he => ?_,
      fun ctx hctx => ?_⟩
    · rw [show c₂.ownership = _ from hown] at he
      exact hkr r e he
    · rcases mem_contexts_begin hctx with rfl | hctx
      · exact hkf _ f ht.inFlight
      · exact hkc ctx hctx
  case queue_issued => exact (ht.queue_issued h :)
  case queue_line => exact (ht.queue_line h :)
  case issued_queue => exact (ht.issued_queue h :)
  case held_line => simp
  case held_after => simp

/-! ## Ending a completion -/

section Ending

variable {fr : Frame} {rest : List Frame} {e : RecordEntry}

/-- Lowering a record's count keeps every record's entry, with its key. -/
theorem get?_of_lowered {records : Table Nat RecordEntry} {rec : Nat}
    (he : records.get? rec = some e) (p : Nat) {r : Nat} {e' : RecordEntry}
    (he' : (records.set rec { e with pending := p }).get? r = some e') :
    ∃ e0, records.get? r = some e0 ∧ e'.key = e0.key := by
  by_cases hr : rec = r
  · subst hr
    rw [Table.get?_set_self] at he'
    cases he'
    exact ⟨e, he, rfl⟩
  · rw [Table.get?_set_ne _ _ hr] at he'
    exact ⟨e', he', rfl⟩

theorem get?_lowered {records : Table Nat RecordEntry} {rec : Nat}
    (he : records.get? rec = some e) (p : Nat) {r : Nat} {e0 : RecordEntry}
    (he0 : records.get? r = some e0) :
    ∃ e', (records.set rec { e with pending := p }).get? r = some e' ∧ e'.key = e0.key := by
  by_cases hr : rec = r
  · subst hr
    rw [he] at he0
    cases he0
    exact ⟨_, Table.get?_set_self .., rfl⟩
  · exact ⟨e0, by rw [Table.get?_set_ne _ _ hr]; exact he0, rfl⟩

/-- At the last completion of a record, the frame being ended is all that is outstanding for
it: none of its requests is in flight, and no other completion of it is being processed. -/
theorem last_quiet (h : m.Inv []) (hfr : m.frames = fr :: rest)
    (he : m.ctl.ownership.records.get? fr.record = some e) (hp : ¬1 < e.pending) :
    (∀ id f, m.ctl.inFlight.get? id = some f → f.record ≠ fr.record) ∧
      ∀ fr' ∈ rest, fr'.record ≠ fr.record := by
  have hpend := h.pending fr.record
  have hpos := h.pending_pos _ e he
  simp only [he, Option.map_some, Option.getD_some, outstanding, hfr, List.countP_cons,
    decide_true, if_true] at hpend
  have hflight : m.ctl.inFlight.countP (fun x => x.2.record = fr.record) = 0 := by omega
  have hframes : rest.countP (fun fr' => fr'.record = fr.record) = 0 := by omega
  refine ⟨fun id f hf hr => ?_, fun fr' hfr' hr => ?_⟩
  · exact List.countP_eq_zero.mp hflight (id, f) (Table.mem_of_get?_eq_some hf) (by simpa using hr)
  · exact List.countP_eq_zero.mp hframes fr' hfr' (by simpa using hr)

/-- At the last completion of a record, nothing on its key is let through: every request let
through, every pair entry and every other completion being processed is on another key. -/
theorem key_quiet (h : m.Inv []) (hfr : m.frames = fr :: rest)
    (he : m.ctl.ownership.records.get? fr.record = some e) (hp : ¬1 < e.pending)
    (howns : m.ctl.ownership.Owns e.key fr.record) :
    (∀ id ∈ m.ctl.waiting.map (·.id) ++ m.ctl.issuedIds, ∀ f,
      m.ctl.inFlight.get? id = some f → f.key ≠ e.key) ∧
    (∀ s, m.ctl.queues.queues.get? (e.key, s) = none) ∧
    (∀ fr' ∈ rest, ∀ e', m.ctl.ownership.records.get? fr'.record = some e' → e'.key ≠ e.key) := by
  obtain ⟨hflight, hframes⟩ := h.last_quiet hfr he hp
  have hlet : ∀ id ∈ m.ctl.waiting.map (·.id) ++ m.ctl.issuedIds, ∀ f,
      m.ctl.inFlight.get? id = some f → f.key ≠ e.key := by
    intro id hid f hf hkey
    obtain ⟨f', hf', hown'⟩ := h.owned id (by simpa using hid)
    rw [hf] at hf'
    cases hf'
    rw [hkey] at hown'
    exact hflight id f hf (hown'.unique howns)
  refine ⟨hlet, fun s => ?_, fun fr' hfr' e' he' hkey => ?_⟩
  · cases hq : m.ctl.queues.queues.get? (e.key, s) with
    | none => rfl
    | some q =>
      obtain ⟨hmem, f, hf, hpair⟩ := h.queue_issued _ q hq
      exact absurd (congrArg Prod.fst hpair) (hlet q.issued (List.mem_append_right _ hmem) f hf)
  · obtain ⟨e'', he'', hown''⟩ := h.frame_owns fr' (by rw [hfr]; exact List.mem_cons_of_mem _ hfr')
    rw [he'] at he''
    cases he''
    rw [hkey] at hown''
    exact hframes fr' hfr' (hown''.unique howns)

/-- A completion that is not its record's last counts the record down. -/
theorem uncount_later (h : m.Inv []) (hfr : m.frames = fr :: rest)
    (he : m.ctl.ownership.records.get? fr.record = some e) (hp : 1 < e.pending) :
    ({ m with
        ctl := { m.ctl with
          current := fr.previous,
          ownership := { m.ctl.ownership with
            records := m.ctl.ownership.records.set fr.record { e with pending := e.pending - 1 } } },
        frames := rest } : Machine τ).Inv [] := by
  obtain ⟨keyOf, hkf, hkr, hkc⟩ := h.keyed
  have hfr_mem : ∀ fr' ∈ rest, fr' ∈ m.frames := fun fr' hfr' => by
    rw [hfr]
    exact List.mem_cons_of_mem _ hfr'
  constructor
  case inFlight_keys => exact h.inFlight_keys
  case owners_keys => exact h.owners_keys
  case queues_keys => exact h.queues_keys
  case placed => exact h.placed
  case entry => exact h.entry
  case parked_entry => exact h.parked_entry
  case request_entry => exact h.request_entry
  case owned => exact h.owned
  case owner_entry =>
    intro k ko hko
    obtain ⟨e0, he0, hk0⟩ := h.owner_entry k ko hko
    obtain ⟨e', he', hk'⟩ := get?_lowered he _ he0
    exact ⟨e', he', hk'.trans hk0⟩
  case parked_line => exact h.parked_line
  case pending =>
    intro r
    have hold := h.pending r
    simp only [outstanding, hfr, List.countP_cons] at hold ⊢
    by_cases hr : fr.record = r
    · subst hr
      simp only [he, Option.map_some, Option.getD_some, decide_true, if_true] at hold
      simp only [Table.get?_set_self, Option.map_some, Option.getD_some]
      omega
    · rw [Table.get?_set_ne _ _ hr]
      simpa [hr] using hold
  case pending_pos =>
    intro r e' he'
    by_cases hr : fr.record = r
    · subst hr
      rw [Table.get?_set_self] at he'
      cases he'
      show 0 < e.pending - 1
      omega
    · rw [Table.get?_set_ne _ _ hr] at he'
      exact h.pending_pos r e' he'
  case record_lt =>
    intro r e' he'
    obtain ⟨e0, he0, -⟩ := get?_of_lowered he _ he'
    exact h.record_lt r e0 he0
  case frame_owns =>
    intro fr' hfr'
    obtain ⟨e0, he0, hown0⟩ := h.frame_owns fr' (hfr_mem fr' hfr')
    obtain ⟨e', he', hk'⟩ := get?_lowered he _ he0
    exact ⟨e', he', hk' ▸ hown0⟩
  case context_lt =>
    intro ctx hctx
    exact h.context_lt ctx (contexts_pop hfr (mem_contexts.mp hctx))
  case keyed =>
    refine ⟨keyOf, hkf, fun r e' he' => ?_, fun ctx hctx => hkc ctx (contexts_pop hfr (mem_contexts.mp hctx))⟩
    obtain ⟨e0, he0, hk⟩ := get?_of_lowered he _ he'
    exact hk.trans (hkr r e0 he0)
  case queue_issued => exact h.queue_issued
  case queue_line => exact h.queue_line
  case issued_queue => exact h.issued_queue
  case held_line => exact h.held_line
  case held_after => exact h.held_after

/-- The record of the innermost completion owns the key of its entry. -/
theorem owns_ended (h : m.Inv []) (hfr : m.frames = fr :: rest)
    (he : m.ctl.ownership.records.get? fr.record = some e) : m.ctl.ownership.Owns e.key fr.record := by
  obtain ⟨e0, he0, hown0⟩ := h.frame_owns fr (by rw [hfr]; exact List.mem_cons_self ..)
  rw [he] at he0
  cases he0
  exact hown0

variable {key next : Nat} {ko : KeyOwner} {owners' : Table Nat KeyOwner}
  {take drop : List (Nat × Request)}

/-- A request a hand-over lets through is in flight under the new owner, on the key. -/
theorem take_entry (h : m.Inv []) (hko : m.ctl.ownership.owners.get? key = some ko)
    (hh : Ownership.Handover m.ctl.ownership.owners owners' key ko next take drop)
    {x : Nat × Request} (hx : x ∈ take) :
    ∃ f, m.ctl.inFlight.get? x.2.id = some f ∧ f.record = next ∧ f.Describes x.2 ∧
      x.2.key = key := by
  have hmem : x ∈ ko.parked := hh.split ▸ List.mem_append_left _ hx
  obtain ⟨f, hf, hrec, hd⟩ :=
    h.parked_entry x (List.mem_flatMap.mpr ⟨_, Table.mem_of_get?_eq_some hko, hmem⟩)
  exact ⟨f, hf, hrec.trans (hh.take_next x hx), hd, (h.parked_line _ ko hko).2 x hmem⟩

/-- After a hand-over every parked line is still ordered and on its key: the key's new line is
the tail of the old one. -/
theorem parked_line_handover (h : m.Inv []) (hko : m.ctl.ownership.owners.get? key = some ko)
    (hh : Ownership.Handover m.ctl.ownership.owners owners' key ko next take drop) :
    ∀ k ko', owners'.get? k = some ko' →
      (ko'.parked.map (·.2.id)).Pairwise (· < ·) ∧ ∀ x ∈ ko'.parked, x.2.key = k := by
  intro k ko' hko'
  by_cases hk : key = k
  · subst hk
    obtain ⟨rfl, -⟩ := hh.get?_self hko'
    obtain ⟨hl, hkey⟩ := h.parked_line _ ko hko
    rw [hh.split, List.map_append] at hl
    rw [hh.split] at hkey
    exact ⟨(List.pairwise_append.mp hl).2.1, fun x hx => hkey x (List.mem_append_right _ hx)⟩
  · rw [hh.other k hk] at hko'
    exact h.parked_line k ko' hko'

/-- The requests a hand-over lets through keep the order of the line they leave. -/
theorem take_line (h : m.Inv []) (hko : m.ctl.ownership.owners.get? key = some ko)
    (hh : Ownership.Handover m.ctl.ownership.owners owners' key ko next take drop) :
    ((take.map (·.2)).map (·.id)).Pairwise (· < ·) := by
  have hl := (h.parked_line _ ko hko).1
  rw [hh.split, List.map_append] at hl
  rw [List.map_map]
  exact (List.pairwise_append.mp hl).1

/-- After the last completion of a record, every owner still has an entry with its key. The
key's new owner has a request let through, in flight, so its record has an entry, and it is not
the ended record. -/
theorem owner_entry_handover (h : m.Inv []) (hfr : m.frames = fr :: rest)
    (he : m.ctl.ownership.records.get? fr.record = some e) (hp : ¬1 < e.pending)
    (hko : m.ctl.ownership.owners.get? e.key = some ko)
    (hh : Ownership.Handover m.ctl.ownership.owners owners' e.key ko next take drop) :
    ∀ k ko', owners'.get? k = some ko' →
      ∃ e', (m.ctl.ownership.records.erase fr.record).get? ko'.record = some e' ∧ e'.key = k := by
  obtain ⟨keyOf, hkf, hkr, -⟩ := h.keyed
  obtain ⟨hflight, -⟩ := h.last_quiet hfr he hp
  intro k ko' hko'
  by_cases hk : e.key = k
  · subst hk
    obtain ⟨rfl, hne⟩ := hh.get?_self hko'
    obtain ⟨y, hy⟩ := List.exists_mem_of_ne_nil take hne
    obtain ⟨f, hf, hrec, hd, hkey⟩ := h.take_entry hko hh hy
    obtain ⟨e', he'⟩ := h.record_of_inFlight hf
    refine ⟨e', ?_, ?_⟩
    · rw [← hrec, Table.get?_erase_ne _ (Ne.symm (hflight _ f hf))]
      exact he'
    · rw [hkr _ e' he', ← hkf _ f hf, hd.1, hkey]
  · rw [hh.other k hk] at hko'
    obtain ⟨e0, he0, hk0⟩ := h.owner_entry k ko' hko'
    have hne : fr.record ≠ ko'.record := by
      intro heq
      rw [← heq, he] at he0
      cases he0
      exact hk hk0
    exact ⟨e0, by rw [Table.get?_erase_ne _ hne]; exact he0, hk0⟩

/-- At the last completion of a record, its one count goes with its entry. -/
theorem pending_last (h : m.Inv []) (hfr : m.frames = fr :: rest)
    (he : m.ctl.ownership.records.get? fr.record = some e) (hp : ¬1 < e.pending) (r : Nat) :
    (((m.ctl.ownership.records.erase fr.record).get? r).map (·.pending)).getD 0 =
      m.ctl.inFlight.countP (fun x => x.2.record = r) + rest.countP (fun fr' => fr'.record = r) := by
  have hold := h.pending r
  simp only [outstanding, hfr, List.countP_cons] at hold
  by_cases hr : fr.record = r
  · subst hr
    have hpos := h.pending_pos _ e he
    simp only [he, Option.map_some, Option.getD_some, decide_true, if_true] at hold
    simp only [Table.get?_erase_self, Option.map_none, Option.getD_none]
    omega
  · rw [Table.get?_erase_ne _ hr]
    simpa [hr] using hold

/-- At the last completion of a record, the record's entry goes and its key is handed over. -/
theorem uncount_last (h : m.Inv []) (hfr : m.frames = fr :: rest)
    (he : m.ctl.ownership.records.get? fr.record = some e) (hp : ¬1 < e.pending)
    (hko : m.ctl.ownership.owners.get? e.key = some ko) (next : Nat)
    (hh : Ownership.Handover m.ctl.ownership.owners owners' e.key ko next take drop) :
    ({ m with
        ctl := { m.ctl with
          current := fr.previous,
          ownership := ⟨m.ctl.ownership.records.erase fr.record, owners'⟩ },
        frames := rest } : Machine τ).Inv (take.map (·.2)) := by
  obtain ⟨keyOf, hkf, hkr, hkc⟩ := h.keyed
  obtain ⟨-, hframes⟩ := h.last_quiet hfr he hp
  obtain ⟨hlet_key, hqueue_none, hframe_key⟩ := h.key_quiet hfr he hp (h.owns_ended hfr he)
  have hrec_sub : ∀ r e', (m.ctl.ownership.records.erase fr.record).get? r = some e' →
      m.ctl.ownership.records.get? r = some e' := fun _ _ => Table.get?_of_get?_erase
  constructor
  case inFlight_keys => exact h.inFlight_keys
  case owners_keys => exact hh.keys
  case queues_keys => exact h.queues_keys
  case placed =>
    -- the requests let through leave the parked lines and are held
    refine List.Perm.trans (List.perm_iff_count.mpr fun a => ?_) h.placed
    have h1 := ((hh.parked_perm h.owners_keys hko).map (·.2.id)).count_eq a
    simp only [Controller.placedIds, Controller.parked, Controller.waiting, Controller.issuedIds,
      Controller.ready, Controller.finished, List.map_append, List.map_map, Function.comp_def,
      List.map_nil, List.count_nil, List.count_append] at h1 ⊢
    omega
  case entry => exact h.entry
  case parked_entry => exact fun x hx => h.parked_entry x (hh.mem_parked h.owners_keys hko hx)
  case request_entry =>
    intro x hx
    rcases List.mem_append.mp hx with hx | hx
    · exact h.request_entry x (List.mem_append_left _ hx)
    · obtain ⟨y, hy, rfl⟩ := List.mem_map.mp hx
      obtain ⟨f, hf, -, hd, -⟩ := h.take_entry hko hh hy
      exact ⟨f, hf, hd⟩
  case owned =>
    intro id hid
    rcases List.mem_append.mp hid with hid | hid
    · obtain ⟨f, hf, hfo⟩ := h.owned id (List.mem_append_left _ hid)
      exact ⟨f, hf, hh.owns_of_ne (hlet_key id hid f hf) hfo⟩
    · rw [List.map_map] at hid
      obtain ⟨y, hy, rfl⟩ := List.mem_map.mp hid
      obtain ⟨f, hf, hrec, hd, hkey⟩ := h.take_entry hko hh hy
      exact ⟨f, hf, _, by rw [hd.1, hkey]; exact hh.get?_of_mem_take hy, hrec.symm⟩
  case owner_entry => exact h.owner_entry_handover hfr he hp hko hh
  case parked_line => exact h.parked_line_handover hko hh
  case pending => exact (h.pending_last hfr he hp :)
  case pending_pos => exact fun r e' he' => h.pending_pos r e' (hrec_sub r e' he')
  case record_lt => exact fun r e' he' => h.record_lt r e' (hrec_sub r e' he')
  case frame_owns =>
    intro fr' hfr'
    obtain ⟨e0, he0, hown0⟩ := h.frame_owns fr' (by rw [hfr]; exact List.mem_cons_of_mem _ hfr')
    refine ⟨e0, ?_, hh.owns_of_ne (hframe_key fr' hfr' e0 he0) hown0⟩
    rw [Table.get?_erase_ne _ (Ne.symm (hframes fr' hfr'))]
    exact he0
  case context_lt =>
    exact fun ctx hctx => h.context_lt ctx (contexts_pop hfr (mem_contexts.mp hctx))
  case keyed =>
    exact ⟨keyOf, hkf, fun r e' he' => hkr r e' (hrec_sub r e' he'),
      fun ctx hctx => hkc ctx (contexts_pop hfr (mem_contexts.mp hctx))⟩
  case queue_issued => exact h.queue_issued
  case queue_line => exact h.queue_line
  case issued_queue => exact h.issued_queue
  case held_line => exact h.take_line hko hh
  case held_after =>
    -- nothing is issued or waiting on the key
    intro x hx q hq
    obtain ⟨y, hy, rfl⟩ := List.mem_map.mp hx
    obtain ⟨-, -, -, -, hkey⟩ := h.take_entry hko hh hy
    rw [hkey, hqueue_none] at hq
    cases hq

/-- Counting a completion against its record keeps the invariant, with the requests key
ownership passes on held to be issued. -/
theorem completed (h : m.Inv []) (hfr : m.frames = fr :: rest) :
    ({ m with
        ctl := { m.ctl with
          current := fr.previous,
          ownership := (m.ctl.ownership.complete fr.record).1 },
        frames := rest } : Machine τ).Inv (m.ctl.ownership.complete fr.record).2 := by
  obtain ⟨e, he, ko, hko, hko_rec⟩ := h.frame_owns fr (by rw [hfr]; exact List.mem_cons_self ..)
  by_cases hp : 1 < e.pending
  · rw [Ownership.complete_of_later he hp]
    exact h.uncount_later hfr he hp
  · cases hk : ko.parked with
    | nil =>
      rw [Ownership.complete_of_free he hp hko hk]
      exact h.uncount_last hfr he hp hko 0 ⟨show ko.parked = [] ++ [] by rw [hk]; rfl,
        by simp, Table.nodup_keys_erase h.owners_keys _, fun k hk' => Table.get?_erase_ne _ hk',
        .inl ⟨Table.get?_erase_self .., hk⟩, by simp⟩
    | cons y tail =>
      obtain ⟨next, x⟩ := y
      rw [Ownership.complete_of_pass he hp hko hk]
      refine h.uncount_last hfr he hp hko next ⟨List.takeWhile_append_dropWhile.symm,
        fun y hy => by simpa using List.all_eq_true.mp List.all_takeWhile y hy,
        Table.nodup_keys_set h.owners_keys _ _, fun k hk' => Table.get?_set_ne _ _ hk',
        .inr ⟨Table.get?_set_self .., by simp [hk]⟩, ?_⟩
      simpa using Table.flatMap_set_perm h.owners_keys e.key
        ⟨next, ko.parked.dropWhile fun p => p.1 = next⟩ (·.parked)

/-- Ending the innermost completion keeps the invariant. -/
theorem finish (h : m.Inv []) (hfr : m.frames = fr :: rest) (now : Nat) :
    ({ m with ctl := m.ctl.endCompletion now fr.record fr.previous, frames := rest } :
      Machine τ).Inv [] := by
  rw [Controller.endCompletion_eq]
  exact (h.completed hfr).issueAll now

end Ending

/-! ## Starting a record and submitting -/

/-- Starting a record gives it a fresh number; its key is fixed from now on. -/
theorem setKey (h : m.Inv []) (key : Nat) :
    ({ m with ctl := m.ctl.setCurrentKey key } : Machine τ).Inv [] := by
  obtain ⟨keyOf, hkf, hkr, hkc⟩ := h.keyed
  -- every record in use is below the fresh one, so its key stays what it was
  have hold : ∀ ctx ∈ m.contexts, ctx.record ≠ m.ctl.nextRecord :=
    fun ctx hc => Nat.ne_of_lt (h.context_lt ctx hc)
  have hctx : ∀ ctx ∈ ({ m with ctl := m.ctl.setCurrentKey key } : Machine τ).contexts,
      ctx = ⟨m.ctl.nextRecord, key⟩ ∨ ctx ∈ m.contexts := by
    intro ctx hc
    rcases mem_contexts.mp hc with hcur | ⟨fr, hfr, hprev⟩
    · cases hcur
      exact .inl rfl
    · exact .inr (mem_contexts.mpr (.inr ⟨fr, hfr, hprev⟩))
  let keyOf' : Nat → Nat := fun r => if r = m.ctl.nextRecord then key else keyOf r
  have hkey' : ∀ r, r < m.ctl.nextRecord → keyOf' r = keyOf r := fun r hr => if_neg (Nat.ne_of_lt hr)
  constructor
  case inFlight_keys => exact h.inFlight_keys
  case owners_keys => exact h.owners_keys
  case queues_keys => exact h.queues_keys
  case placed => exact h.placed
  case entry =>
    intro id f hf
    obtain ⟨h1, h2, h3⟩ := h.entry id f hf
    exact ⟨h1, h2, Nat.lt_succ_of_lt h3⟩
  case parked_entry => exact h.parked_entry
  case request_entry => exact h.request_entry
  case owned => exact h.owned
  case owner_entry => exact h.owner_entry
  case parked_line => exact h.parked_line
  case pending => exact h.pending
  case pending_pos => exact h.pending_pos
  case record_lt => exact fun r e he => Nat.lt_succ_of_lt (h.record_lt r e he)
  case frame_owns => exact h.frame_owns
  case context_lt =>
    intro ctx hc
    rcases hctx ctx hc with rfl | hc
    · exact Nat.lt_succ_self _
    · exact Nat.lt_succ_of_lt (h.context_lt ctx hc)
  case keyed =>
    refine ⟨keyOf', fun id f hf => ?_, fun r e he => ?_, fun ctx hc => ?_⟩
    · rw [hkey' _ (h.entry id f hf).2.2]
      exact hkf id f hf
    · rw [hkey' _ (h.record_lt r e he)]
      exact hkr r e he
    · rcases hctx ctx hc with rfl | hc
      · exact (if_pos rfl).symm
      · rw [hkey' _ (h.context_lt ctx hc)]
        exact hkc ctx hc
  case queue_issued => exact h.queue_issued
  case queue_line => exact h.queue_line
  case issued_queue => exact h.issued_queue
  case held_line => exact h.held_line
  case held_after => exact h.held_after

/-- A successful submission keeps the invariant: the request is admitted, issued if key
ownership lets it through, and the ready buffer may be flushed. -/
theorem submit (h : m.Inv []) {now : Nat} {state : String} {kind : StateKind} {rt : RequestType}
    {ns : Bytes} {payload : Payload} {promise : τ} {c' : Controller τ}
    (hs : m.ctl.submit now state kind rt ns payload promise = .ok c') :
    ({ m with ctl := c' } : Machine τ).Inv [] := by
  obtain ⟨ctx, hctx, hc'⟩ := Controller.submit_eq_ok hs
  have hclaimed : ({ m with
      ctl := Controller.claim
        { m.ctl with nextId := m.ctl.nextId + 1,
                     inFlight := m.ctl.inFlight.set m.ctl.nextId
                       ⟨ctx.record, ctx.key, state, m.ctl.nextId, promise⟩ }
        now ctx.record (m.ctl.nextRequest ctx state kind rt ns payload) } : Machine τ).Inv [] := by
    rw [Controller.claim_eq]
    exact (h.admitted hctx state kind rt ns payload promise).issueAll now
  rcases hc' with rfl | rfl
  · exact hclaimed
  · exact hclaimed.flush

/-! ## Every transition -/

/-- The step lemma: every transition keeps the invariant. -/
theorem step {m' : Machine τ} (h : m.Inv []) (hs : Step m m') : m'.Inv [] := by
  cases hs with
  | internal hi =>
    cases hi with
    | flush => exact h.flush
    | execute i batch hb => exact h.execute hb _
    | receive => exact h.receive
    | begin now comp f previous c hb => exact h.begin hb
    | finish now fr rest hfr => exact h.finish hfr now
    | nestedKey key _ => exact h.setKey key
  | setKey key => exact h.setKey key
  | submit now state kind rt ns payload promise c hsub => exact h.submit hsub
  | shut => exact h.shut

end Machine.Inv

namespace Machine

/-! ## The fresh controller -/

theorem inv_start (cfg : Config) : (start cfg : Machine τ).Inv [] := by
  constructor
  case keyed => exact ⟨fun _ => 0, by simp [start], by simp [start], by simp [start, contexts]⟩
  all_goals simp [start, Controller.placedIds, Controller.parked, Controller.waiting,
    Controller.ready, Controller.issuedIds, Controller.finished, outstanding, contexts]

/-- The run lemma: every reachable machine has the invariant. -/
theorem Reachable.inv {cfg : Config} {m : Machine τ} (h : Reachable cfg m) : m.Inv [] := by
  induction h with
  | start => exact inv_start cfg
  | step _ hs ih => exact ih.step hs

end Machine

end OrderedState
