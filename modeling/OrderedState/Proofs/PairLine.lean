import OrderedState.Proofs.Program

/-!
# The line of a pair

The requests of one (key, state) pair run one at a time, in the order they joined the pair.
For each pair `p`, `c.pairLine p` lists the requests of the pair that are in flight and have not
run, in the order they will run: the issued one while it is ready or in a batch, those waiting
behind it, then those parked on its key.

Each transition of an orderly run leaves every line as it is, except two:

* running a batch takes the front of a line: the batch holds at most one request of each pair,
  and that one is the pair's ready request (`Inv.pairLine_execute`);
* a submission at the top level puts the new request at the end of its pair's line
  (`Inv.pairLine_submit`). A request let through joins its pair behind the ones let through
  before it, and nothing of its pair is parked: the top-level record is the newest, and parked
  records come after the owner (`ParkedOrder`). A request parked joins the end of the parked
  line.

Taking a completion moves the front of the waiting line to the ready buffer; ending one moves
the front of a parked line to the end of the waiting line. Neither changes the order.
-/

namespace OrderedState

variable {τ : Type}

/-- The (key, state) pair a request works on. -/
def Request.pair (r : Request) : Pair := (r.key, r.state)

/-! ## Lines -/

/-- The requests of pair `p` parked on its key, in the order of the parked line. -/
def Ownership.parkedAt (o : Ownership) (p : Pair) : List Request :=
  ((((o.owners.get? p.1).map (·.parked)).getD []).map (·.2)).filter (·.pair = p)

namespace Controller

/-- The requests of pair `p` waiting behind its issued request, in order. -/
def waitingAt (c : Controller τ) (p : Pair) : List Request :=
  ((c.queues.queues.get? p).map (·.waiting)).getD []

/-- The requests of pair `p` in flight that have not run, in the order they will run. -/
def pairLine (c : Controller τ) (p : Pair) : List Request :=
  c.ready.filter (·.pair = p) ++ c.waitingAt p ++ c.ownership.parkedAt p

end Controller

namespace Ownership

/-- Admitting a request lets it through or parks it at the end of its key's line; either way it
comes after everything of its pair parked before, as long as its record, when it owns the key,
has nothing parked behind it. -/
theorem claim_parkedAt (o : Ownership) (record : Nat) (r : Request) (p : Pair)
    (hown : ∀ ko, o.owners.get? r.key = some ko → ko.record = record → ko.parked = []) :
    (o.claim record r).2.toList.filter (·.pair = p) ++ (o.claim record r).1.parkedAt p =
      o.parkedAt p ++ [r].filter (·.pair = p) := by
  by_cases hk : p.1 = r.key
  · rcases claim_cases o record r with
        ⟨hfree, heq⟩ | ⟨ko, hko, hrec, heq⟩ | ⟨ko, hko, -, heq⟩ <;>
      rw [heq] <;> simp only [parkedAt, hk]
    · simp [hfree]
    · simp [hko, hown ko hko hrec]
    · simp [List.filter_append, hko]
  · -- another key: nothing of the pair is admitted, and its parked line stays
    have hne : r.key ≠ p.1 := Ne.symm hk
    have hr : [r].filter (·.pair = p) = [] :=
      List.filter_eq_nil_iff.mpr fun y hy hyp => hk (by
        rw [List.mem_singleton.mp hy] at hyp
        rw [← of_decide_eq_true hyp]
        rfl)
    rcases claim_cases o record r with ⟨-, heq⟩ | ⟨_, -, -, heq⟩ | ⟨_, -, -, heq⟩ <;>
      rw [heq] <;> simp only [parkedAt, Table.get?_set_ne _ _ hne, hr] <;> simp [hr]

/-- Counting a completion passes on, at the front of its key's parked line, the requests it
lets through: they and the line left are the line before. -/
theorem complete_parkedAt (o : Ownership) (record : Nat) (p : Pair)
    (hline : ∀ k ko, o.owners.get? k = some ko → ∀ x ∈ ko.parked, x.2.key = k) :
    (o.complete record).2.filter (·.pair = p) ++ (o.complete record).1.parkedAt p =
      o.parkedAt p := by
  cases he : o.records.get? record with
  | none => simp [complete, he]
  | some e =>
    by_cases hp : 1 < e.pending
    · rw [complete_of_later he hp]
      rfl
    cases ho : o.owners.get? e.key with
    | none => rw [complete_of_unowned he hp ho]; rfl
    | some ko =>
      cases hk : ko.parked with
      | nil =>
        rw [complete_of_free he hp ho hk]
        by_cases hkey : p.1 = e.key
        · simp [parkedAt, hkey, ho, hk]
        · simp [parkedAt, Table.get?_erase_ne _ (Ne.symm hkey)]
      | cons y tail =>
        obtain ⟨next, x⟩ := y
        rw [complete_of_pass he hp ho hk]
        by_cases hkey : p.1 = e.key
        · -- the key's own line: the requests let through are its front
          simp only [parkedAt, hkey, Table.get?_set_self, ho, Option.map_some, Option.getD_some]
          rw [← List.filter_append, ← List.map_append, List.takeWhile_append_dropWhile]
        · -- another key: its line stays, and nothing let through is of the pair
          have hout : ((ko.parked.takeWhile fun y => y.1 = next).map (·.2)).filter
              (·.pair = p) = [] := by
            refine List.filter_eq_nil_iff.mpr fun y hy hyp => hkey ?_
            obtain ⟨z, hz, rfl⟩ := List.mem_map.mp hy
            rw [← of_decide_eq_true hyp]
            exact hline e.key ko ho z (List.takeWhile_sublist _ |>.subset hz)
          simp only [parkedAt, Table.get?_set_ne _ _ (Ne.symm hkey), hout, List.nil_append]

end Ownership

/-- A list of at most one element is the only list it is a permutation of. -/
theorem eq_of_perm_of_length_le_one {α : Type} {l₁ l₂ : List α} (hp : l₁.Perm l₂)
    (h : l₂.length ≤ 1) : l₁ = l₂ := by
  match l₂, h with
  | [], _ => exact List.perm_nil.mp hp
  | [_], _ => exact List.perm_singleton.mp hp
  | _ :: _ :: _, h => simp at h

theorem length_le_one_of_nodup {α : Type} {l : List α} (hd : l.Nodup)
    (h : ∀ x ∈ l, ∀ y ∈ l, x = y) : l.length ≤ 1 := by
  match l, hd, h with
  | [], _, _ => simp
  | [_], _, _ => simp
  | a :: b :: rest, hd, h =>
    have hab : a = b := h a (by simp) b (by simp)
    subst hab
    simp at hd

namespace Controller

theorem ready_flush_perm {c : Controller τ} (hopen : c.closed = false) :
    c.flush.ready.Perm c.ready := by
  simp only [flush_eq, dispatch, hopen]
  split
  · rename_i hnil
    simp [ready, List.isEmpty_iff.mp hnil]
  · simp only [ready, List.nil_append, List.flatten_append, List.flatten_cons, List.flatten_nil,
      List.append_nil, Bool.false_eq_true, if_false]
    exact List.perm_append_comm

end Controller

/-! ## What the invariant says of ready requests -/

namespace Machine.Inv

variable {m : Machine τ} {held : List Request}

/-- A ready request's pair has an entry naming it as the pair's issued request. -/
theorem ready_queue (h : m.Inv held) {x : Request} (hx : x ∈ m.ctl.ready) :
    ∃ q, m.ctl.queues.queues.get? x.pair = some q ∧ q.issued = x.id := by
  obtain ⟨f, hf, hd⟩ := h.request_entry x (by simp [hx])
  obtain ⟨f', q, hf', hq, hqi⟩ := h.issued_queue x.id
    (by simp [Controller.issuedIds, List.mem_map_of_mem hx])
  rw [hf] at hf'
  cases hf'
  refine ⟨q, ?_, hqi⟩
  rw [Request.pair, ← hd.1, ← hd.2.1]
  exact hq

/-- An idle pair has nothing ready. -/
theorem ready_idle (h : m.Inv held) {p : Pair} (hp : m.ctl.queues.queues.get? p = none) :
    m.ctl.ready.filter (·.pair = p) = [] := by
  refine List.filter_eq_nil_iff.mpr fun x hx hxp => ?_
  obtain ⟨q, hq, -⟩ := h.ready_queue hx
  rw [of_decide_eq_true hxp, hp] at hq
  cases hq

theorem ready_ids_nodup (h : m.Inv held) : (m.ctl.ready.map (·.id)).Nodup := by
  have hsub : (m.ctl.ready.map (·.id)).Sublist (m.ctl.placedIds ++ held.map (·.id)) := by
    show (m.ctl.ready.map (·.id)).Sublist
      (m.ctl.parked.map (·.2.id) ++ m.ctl.waiting.map (·.id) ++
        (m.ctl.ready.map (·.id) ++ m.ctl.finished.map (·.id)) ++ held.map (·.id))
    exact ((List.sublist_append_left _ _).trans (List.sublist_append_right _ _)).trans
      (List.sublist_append_left _ _)
  exact h.placed_nodup.sublist hsub

/-- At most one request of a pair is ready. -/
theorem ready_pair_le_one (h : m.Inv held) (p : Pair) :
    (m.ctl.ready.filter (·.pair = p)).length ≤ 1 := by
  -- the ready requests of the pair all carry the id the pair's entry names
  have hsame : ∀ x ∈ (m.ctl.ready.filter (·.pair = p)).map (·.id),
      ∀ y ∈ (m.ctl.ready.filter (·.pair = p)).map (·.id), x = y := by
    intro x hx y hy
    obtain ⟨x', hx', rfl⟩ := List.mem_map.mp hx
    obtain ⟨y', hy', rfl⟩ := List.mem_map.mp hy
    obtain ⟨hxr, hxp⟩ := List.mem_filter.mp hx'
    obtain ⟨hyr, hyp⟩ := List.mem_filter.mp hy'
    obtain ⟨qx, hqx, hix⟩ := h.ready_queue hxr
    obtain ⟨qy, hqy, hiy⟩ := h.ready_queue hyr
    rw [of_decide_eq_true hxp] at hqx
    rw [of_decide_eq_true hyp, hqx] at hqy
    cases hqy
    exact hix.symm.trans hiy
  have hnodup : ((m.ctl.ready.filter (·.pair = p)).map (·.id)).Nodup :=
    h.ready_ids_nodup.sublist (List.filter_sublist.map _)
  simpa using length_le_one_of_nodup hnodup hsame

end Machine.Inv

/-! ## Issuing -/

namespace Machine.Inv

variable {m : Machine τ} {held : List Request}

/-- Issuing a request puts it at the end of its pair's issued and waiting requests. -/
theorem issue_line {r : Request} (h : m.Inv (r :: held)) (now : Nat) (p : Pair) :
    (m.ctl.issue now r).ready.filter (·.pair = p) ++ (m.ctl.issue now r).waitingAt p =
      m.ctl.ready.filter (·.pair = p) ++ m.ctl.waitingAt p ++ [r].filter (·.pair = p) := by
  have hfilter : [r].filter (·.pair = p) = if r.pair = p then [r] else [] := by
    by_cases hp : r.pair = p <;> simp [hp]
  cases hq : m.ctl.queues.queues.get? r.pair with
  | none =>
    rw [Controller.issue_of_idle hq]
    by_cases hp : r.pair = p
    · -- the pair was idle: the request becomes its issued one, with nothing waiting
      subst hp
      have hidle := h.ready_idle hq
      simp only [Controller.ready, List.filter_append, List.append_eq_nil_iff] at hidle
      simp only [Controller.pushActive, Controller.ready, Controller.waitingAt, List.filter_append,
        hidle.1, hidle.2, hq, hfilter, if_true]
      simp [Request.pair]
    · have hne : r.pair ≠ p := hp
      simp only [Controller.pushActive, Controller.ready, Controller.waitingAt,
        List.filter_append, hfilter, hp, if_false, List.append_nil]
      rw [show (r.key, r.state) = r.pair from rfl, Table.get?_set_ne _ _ hne]
  | some q =>
    rw [Controller.issue_of_busy hq]
    by_cases hp : r.pair = p
    · subst hp
      simp only [Controller.ready, Controller.waitingAt, hfilter, if_true]
      rw [show (r.key, r.state) = r.pair from rfl, Table.get?_set_self, hq]
      simp
    · have hne : r.pair ≠ p := hp
      simp only [Controller.ready, Controller.waitingAt, hfilter, hp, if_false, List.append_nil]
      rw [show (r.key, r.state) = r.pair from rfl, Table.get?_set_ne _ _ hne]

/-- Issuing the held requests in order puts them, pair by pair, behind the pairs' issued and
waiting requests and before the parked ones. -/
theorem foldl_issue_line (h : m.Inv held) (now : Nat) (p : Pair) :
    (held.foldl (fun c r => c.issue now r) m.ctl).pairLine p =
      m.ctl.ready.filter (·.pair = p) ++ m.ctl.waitingAt p ++ held.filter (·.pair = p) ++
        m.ctl.ownership.parkedAt p := by
  induction held generalizing m with
  | nil => simp [Controller.pairLine]
  | cons r rest ih =>
    have hstep := h.issue_line now p
    rw [List.foldl_cons, ih (h.issue now)]
    simp only [Controller.issue_ownership] at ⊢
    rw [hstep, List.filter_cons]
    by_cases hp : r.pair = p <;> simp [hp]

/-! ## Flushing, running, collecting -/

/-- Flushing moves the ready requests to a batch without changing any line. -/
theorem pairLine_flush (h : m.Inv []) (hopen : m.ctl.closed = false) (p : Pair) :
    m.ctl.flush.pairLine p = m.ctl.pairLine p := by
  obtain ⟨sent, completed, hf⟩ := Controller.flush_eq_with m.ctl
  -- at most one request of the pair is ready, so reordering the ready buffer keeps its part
  have hready : m.ctl.flush.ready.filter (·.pair = p) = m.ctl.ready.filter (·.pair = p) :=
    eq_of_perm_of_length_le_one ((Controller.ready_flush_perm hopen).filter _)
      (h.ready_pair_le_one p)
  unfold Controller.pairLine
  rw [hready, hf]
  rfl

/-- Running a batch takes from each line its ready request, if the batch holds it. -/
theorem pairLine_execute (h : m.Inv []) {i : Nat} {batch : List Request}
    (hb : m.ctl.sent[i]? = some batch) (p : Pair) :
    batch.filter (·.pair = p) ++ (m.ctl.execute i).pairLine p = m.ctl.pairLine p := by
  rw [Controller.execute_eq hb]
  -- the ready buffer is the batch and what stays ready
  have hperm : m.ctl.ready.Perm (batch ++ (m.ctl.active ++ (m.ctl.sent.eraseIdx i).flatten)) := by
    have hs := (perm_cons_eraseIdx hb).flatten
    simp only [List.flatten_cons] at hs
    exact (hs.append_left m.ctl.active).trans (List.perm_append_comm_assoc _ _ _)
  have hready : batch.filter (·.pair = p) ++
      (m.ctl.active ++ (m.ctl.sent.eraseIdx i).flatten).filter (·.pair = p) =
      m.ctl.ready.filter (·.pair = p) := by
    rw [← List.filter_append]
    exact eq_of_perm_of_length_le_one (hperm.filter _).symm (h.ready_pair_le_one p)
  simp only [Controller.pairLine, Controller.runBatch, Controller.waitingAt, ← hready,
    List.append_assoc]
  rfl

theorem pairLine_receive (p : Pair) : m.ctl.receive.pairLine p = m.ctl.pairLine p := rfl

theorem pairLine_setCurrentKey (key : Nat) (p : Pair) :
    (m.ctl.setCurrentKey key).pairLine p = m.ctl.pairLine p := rfl

/-- A ready request is not a finished one. -/
theorem ready_finished_ne (h : m.Inv held) {x : Request} (hx : x ∈ m.ctl.ready)
    {y : Completion} (hy : y ∈ m.ctl.finished) : x.id ≠ y.id := by
  have hsub : m.ctl.issuedIds.Sublist (m.ctl.placedIds ++ held.map (·.id)) :=
    (List.sublist_append_right _ _).trans (List.sublist_append_left _ _)
  exact (List.nodup_append.mp (h.placed_nodup.sublist hsub)).2.2 _ (List.mem_map_of_mem hx) _
    (List.mem_map_of_mem hy)

/-! ## Taking and ending a completion -/

/-- Taking a completion moves the front of its pair's waiting line to the ready buffer. -/
theorem pairLine_begin (h : m.Inv []) {now : Nat} {comp : Completion} {f : InFlight τ}
    {previous : Option RecordContext} {c : Controller τ}
    (hb : m.ctl.beginCompletion now = some (comp, f, previous, c)) (p : Pair) :
    c.pairLine p = m.ctl.pairLine p := by
  obtain ⟨pre, rest, hcomp, -, hf, -, rfl⟩ := Controller.beginCompletion_eq_some hb
  have hfin : comp ∈ m.ctl.finished := by simp [Controller.finished, hcomp]
  -- the completing request is its pair's issued one
  obtain ⟨f', q, hf', hq, hqi⟩ := h.issued_queue comp.id
    (List.mem_append_right _ (List.mem_map_of_mem hfin))
  rw [hf] at hf'
  cases hf'
  -- so nothing of its pair is ready
  have hidle : m.ctl.ready.filter (·.pair = (f.key, f.state)) = [] := by
    refine List.filter_eq_nil_iff.mpr fun x hx hxp => ?_
    obtain ⟨q', hq', hqi'⟩ := h.ready_queue hx
    rw [of_decide_eq_true hxp, hq] at hq'
    cases hq'
    exact h.ready_finished_ne hx hfin (hqi'.symm.trans hqi)
  obtain ⟨c₂, hc₂⟩ : ∃ c₂, c₂ =
      ({ m.ctl with completed := rest, inFlight := m.ctl.inFlight.erase comp.id } :
        Controller τ).releasePair now f.key f.state := ⟨_, rfl⟩
  rw [← hc₂]
  show c₂.pairLine p = m.ctl.pairLine p
  have hown : c₂.ownership = m.ctl.ownership := by rw [hc₂, Controller.releasePair_ownership]
  unfold Controller.pairLine
  rw [hown]
  rcases Controller.releasePair_moves
      (c := { m.ctl with completed := rest, inFlight := m.ctl.inFlight.erase comp.id })
      now h.queues_keys hq with ⟨hw, hQ, -, hR⟩ | ⟨n, rest', hw, hQ, -, hR⟩ <;>
    rw [← hc₂] at hQ hR
  · -- nothing waited: the pair's entry goes
    have hready : c₂.ready = m.ctl.ready := hR
    rw [hready]
    congr 2
    unfold Controller.waitingAt
    rw [hQ]
    by_cases hp : (f.key, f.state) = p
    · subst hp
      simp [hq, hw]
    · rw [Table.get?_erase_ne _ hp]
  · -- the first waiting request becomes ready
    have hready : c₂.ready = m.ctl.active ++ [n] ++ m.ctl.sent.flatten := hR
    have hn : n.pair = (f.key, f.state) :=
      (h.queue_line _ q hq).2 n (by rw [hw]; exact List.mem_cons_self ..)
    rw [hready]
    simp only [Controller.ready, Controller.waitingAt, List.filter_append] at hidle ⊢
    rw [hQ]
    by_cases hp : (f.key, f.state) = p
    · subst hp
      rw [List.append_eq_nil_iff] at hidle
      simp [hidle.1, hidle.2, hq, hw, hn]
    · have hnp : ¬n.pair = p := by rw [hn]; exact hp
      rw [Table.get?_set_ne _ _ hp]
      simp [hnp]

/-- Ending a completion passes on the front of a parked line: it joins its pairs behind their
issued and waiting requests. -/
theorem pairLine_finish (h : m.Inv []) {fr : Frame} {rest : List Frame}
    (hfr : m.frames = fr :: rest) (now : Nat) (p : Pair) :
    (m.ctl.endCompletion now fr.record fr.previous).pairLine p = m.ctl.pairLine p := by
  rw [Controller.endCompletion_eq, (h.completed hfr).foldl_issue_line now p]
  have hpass := Ownership.complete_parkedAt m.ctl.ownership fr.record p
    fun k ko hko => (h.parked_line k ko hko).2
  simp only [Controller.pairLine, Controller.ready, Controller.waitingAt, List.append_assoc]
    at hpass ⊢
  rw [hpass]

/-! ## Submitting -/

/-- A submission at the top level puts its request at the end of its pair's line. -/
theorem pairLine_submit (h : m.Inv []) (hpo : m.ParkedOrder) (hfr : m.frames = [])
    (hopen : m.ctl.closed = false) {now : Nat} {state : String} {kind : StateKind}
    {rt : RequestType} {ns : Bytes} {payload : Payload} {promise : τ} {c : Controller τ}
    (hs : m.ctl.submit now state kind rt ns payload promise = .ok c) :
    ∃ ctx, m.ctl.current = some ctx ∧ ∀ p, c.pairLine p =
      m.ctl.pairLine p ++
        [m.ctl.nextRequest ctx state kind rt ns payload].filter (·.pair = p) := by
  obtain ⟨ctx, hctx, hc⟩ := Controller.submit_eq_ok hs
  have hadm := h.admitted hctx state kind rt ns payload promise
  -- the submitting record is the top-level one, so when it owns the key nothing is parked there
  have hown : ∀ ko, m.ctl.ownership.owners.get? ctx.key = some ko → ko.record = ctx.record →
      ko.parked = [] := by
    intro ko hko hrec
    obtain ⟨t, ht, hline⟩ := hpo ctx.key ko hko
    rw [top_of_frames_nil hfr, hctx, Option.some.injEq] at ht
    subst ht
    refine List.eq_nil_iff_forall_not_mem.mpr fun x hx => ?_
    have := hline.2.1 x hx
    omega
  obtain ⟨c₀, hc₀⟩ : ∃ c₀, c₀ =
      ({ m.ctl with nextId := m.ctl.nextId + 1,
                    inFlight := m.ctl.inFlight.set m.ctl.nextId
                      ⟨ctx.record, ctx.key, state, m.ctl.nextId, promise⟩ } : Controller τ) :=
    ⟨_, rfl⟩
  rw [← hc₀] at hc
  have hclaimed : ∀ p, (c₀.claim now ctx.record
      (m.ctl.nextRequest ctx state kind rt ns payload)).pairLine p =
      m.ctl.pairLine p ++
        [m.ctl.nextRequest ctx state kind rt ns payload].filter (·.pair = p) := by
    intro p
    rw [hc₀, Controller.claim_eq, hadm.foldl_issue_line now p]
    have hpark := Ownership.claim_parkedAt m.ctl.ownership ctx.record
      (m.ctl.nextRequest ctx state kind rt ns payload) p hown
    simp only [Controller.pairLine, Controller.ready, Controller.waitingAt, List.append_assoc]
      at hpark ⊢
    rw [hpark]
  refine ⟨ctx, hctx, ?_⟩
  rcases hc with rfl | rfl
  · exact hclaimed
  · -- the ready buffer is flushed after the request joins
    intro p
    have hinv : ({ m with
        ctl := c₀.claim now ctx.record (m.ctl.nextRequest ctx state kind rt ns payload) } :
          Machine τ).Inv [] := by
      rw [hc₀, Controller.claim_eq]
      exact hadm.issueAll now
    obtain ⟨qs, a, s', heq⟩ := Controller.foldl_issue_eq_with _ now
      (m.ctl.ownership.claim ctx.record (m.ctl.nextRequest ctx state kind rt ns payload)).2.toList
    have hclosed : (c₀.claim now ctx.record
        (m.ctl.nextRequest ctx state kind rt ns payload)).closed = false := by
      rw [hc₀, Controller.claim_eq, heq]
      exact hopen
    exact (hinv.pairLine_flush hclosed p).trans (hclaimed p)

/-! ## Draining -/

/-- Once nothing is in flight, every line is empty. -/
theorem pairLine_eq_nil (h : m.Inv []) (hd : m.ctl.inFlight = []) (p : Pair) :
    m.ctl.pairLine p = [] := by
  -- every place holds requests in flight, so every place is empty
  have hplaced : m.ctl.placedIds = [] := by
    have := h.placed
    rw [hd] at this
    simpa using this
  simp only [Controller.placedIds, Controller.issuedIds, List.append_eq_nil_iff,
    List.map_eq_nil_iff] at hplaced
  obtain ⟨⟨hparked, -⟩, hready, hfinished⟩ := hplaced
  have hwait : m.ctl.waitingAt p = [] := by
    cases hq : m.ctl.queues.queues.get? p with
    | none => simp [Controller.waitingAt, hq]
    | some q =>
      have hmem := (h.queue_issued p q hq).1
      simp [Controller.issuedIds, hready, hfinished] at hmem
  have hpark : m.ctl.ownership.parkedAt p = [] := by
    cases ho : m.ctl.ownership.owners.get? p.1 with
    | none => simp [Ownership.parkedAt, ho]
    | some ko =>
      have hko : ko.parked = [] := List.eq_nil_iff_forall_not_mem.mpr fun x hx => by
        have hx' : x ∈ m.ctl.parked :=
          List.mem_flatMap.mpr ⟨(p.1, ko), Table.mem_of_get?_eq_some ho, hx⟩
        rw [hparked] at hx'
        exact List.not_mem_nil hx'
      simp [Ownership.parkedAt, ho, hko]
  simp [Controller.pairLine, hready, hwait, hpark]

end Machine.Inv

end OrderedState
