import OrderedState.Proofs.PairLine

/-!
# Every program run can be drained

While requests are in flight, the controller and the executor can always bring one of them to
completion, so a program whose continuations submit nothing never deadlocks: `drain_inflight`
always has a way to finish. The number of requests in flight is the potential:

* the completions being processed end first (`finish_all`), which leaves the in-flight table
  as it is;
* a finished completion is collected, taken and ended (`Inv.take_finished`): one request fewer
  is in flight;
* failing that, a ready request is flushed and its batch run (`run_ready`), which makes
  its completion finished;
* failing that, nothing is in flight (`Inv.inFlight_eq_nil_of_idle`). A parked request waits
  for the owner of its key, and the owner has a request of its own in flight. With nothing
  ready or finished, nothing waits behind a pair either, so that request is parked too, behind
  its own record, and along program runs no line holds its owner's requests (`ParkedOrder`).

`ProgramRun.drains` puts these together by induction on the number in flight.
-/

namespace OrderedState

variable {τ : Type}

namespace Machine

variable {m m' : Machine τ}

/-! ## Runs of moves -/

theorem run?_append (m : Machine τ) (l₁ l₂ : List (Move τ)) :
    m.run? (l₁ ++ l₂) = (m.run? l₁).bind (·.run? l₂) := by
  induction l₁ generalizing m with
  | nil => rfl
  | cons mv rest ih =>
    simp only [List.cons_append, run?]
    cases m.move? mv with
    | none => rfl
    | some m₁ => exact ih m₁

theorem run?_cons {mv : Move τ} (h : m.move? mv = some m') (rest : List (Move τ)) :
    m.run? (mv :: rest) = m'.run? rest := by
  simp [run?, h]

/-- A run of moves keeps the invariant. -/
theorem Inv.run? (h : m.Inv []) {mvs : List (Move τ)} (hr : m.run? mvs = some m') :
    m'.Inv [] := by
  induction mvs generalizing m with
  | nil => cases hr; exact h
  | cons mv rest ih =>
    obtain ⟨m₁, h₁, h₂⟩ := Option.bind_eq_some_iff.mp hr
    exact ih (h.step (step_of_move? h₁)) h₂

/-! ## Ending the completions being processed -/

/-- The completions being processed can all be ended; the in-flight table stays as it is. -/
theorem finish_all (m : Machine τ) :
    ∃ mvs m', mvs.all Move.isInternal = true ∧ m.run? mvs = some m' ∧ m'.frames = [] ∧
      m'.ctl.inFlight = m.ctl.inFlight := by
  induction hfr : m.frames generalizing m with
  | nil => exact ⟨[], m, rfl, rfl, hfr, rfl⟩
  | cons fr rest ih =>
    have hmove : m.move? (.finish 0) =
        some { m with ctl := m.ctl.endCompletion 0 fr.record fr.previous, frames := rest } := by
      simp [move?, hfr]
    obtain ⟨mvs, m', hint, hrun, hnil, hfl⟩ :=
      ih { m with ctl := m.ctl.endCompletion 0 fr.record fr.previous, frames := rest } rfl
    refine ⟨.finish 0 :: mvs, m', by simpa [Move.isInternal] using hint, ?_, hnil, ?_⟩
    · rw [run?_cons hmove]
      exact hrun
    · rw [hfl]
      exact Controller.endCompletion_inFlight ..

/-! ## One request at a time -/

/-- A finished completion can be collected, taken and ended: one request fewer is in flight. -/
theorem Inv.take_finished (h : m.Inv []) (hfr : m.frames = []) (hfin : m.ctl.finished ≠ []) :
    ∃ m', m.run? [.receive, .begin 0, .finish 0] = some m' ∧ m'.frames = [] ∧
      m'.ctl.inFlight.length < m.ctl.inFlight.length := by
  -- collecting puts the finished completions in the completed list
  obtain ⟨comp, rest, hcomp⟩ : ∃ comp rest, m.ctl.receive.completed = comp :: rest := by
    refine List.exists_cons_of_ne_nil fun hnil => hfin ?_
    simp only [Controller.receive, List.append_eq_nil_iff] at hnil
    simp [Controller.finished, hnil.1, hnil.2]
  have hmem : comp ∈ m.ctl.finished := by
    have hc : comp ∈ m.ctl.completed ++ m.ctl.mailbox.flatten := by
      rw [show m.ctl.completed ++ m.ctl.mailbox.flatten = m.ctl.receive.completed from rfl, hcomp]
      exact List.mem_cons_self ..
    simp only [Controller.finished, List.mem_append] at hc ⊢
    exact hc.symm
  -- the first one completes a request in flight, so it can be taken
  obtain ⟨f, hf⟩ := h.inFlight_of_placed
    (show comp.id ∈ m.ctl.placedIds ++ ([] : List Request).map (·.id) by
      simp [Controller.placedIds, Controller.issuedIds, List.mem_map_of_mem hmem])
  have hf' : m.ctl.receive.inFlight.get? comp.id = some f := hf
  obtain ⟨⟨comp', f', previous, c₂⟩, hb⟩ :
      ∃ x, m.ctl.receive.beginCompletion 0 = some x := by
    rw [Controller.beginCompletion_eq, hcomp]
    simp [Controller.nextCompletion, hf']
  obtain ⟨_, _, _, _, hf₂, _, hc₂⟩ := Controller.beginCompletion_eq_some hb
  -- taking it drops its request from the in-flight table
  have hcf : c₂.inFlight = m.ctl.inFlight.erase comp'.id := by
    rw [hc₂]
    exact Controller.releasePair_inFlight ..
  have hlen := (Table.perm_cons_erase h.inFlight_keys
    (show m.ctl.inFlight.get? comp'.id = some f' from hf₂)).length_eq
  have h₂ : ({ m with ctl := m.ctl.receive } : Machine τ).move? (.begin 0) =
      some { m with ctl := c₂, frames := [⟨f'.record, previous⟩],
                    taken := m.taken ++ [comp'] } := by
    simp [move?, hb, hfr]
  refine ⟨{ m with ctl := c₂.endCompletion 0 f'.record previous, frames := [],
                   taken := m.taken ++ [comp'] }, ?_, rfl, ?_⟩
  · rw [run?_cons (show m.move? .receive = some { m with ctl := m.ctl.receive } from rfl),
      run?_cons h₂]
    rfl
  · show (c₂.endCompletion 0 f'.record previous).inFlight.length < m.ctl.inFlight.length
    rw [Controller.endCompletion_inFlight, hcf, hlen, List.length_cons]
    exact Nat.lt_succ_self _

/-- With the controller open, the ready requests can be flushed and a batch holding one of them
run; its completions are then finished. -/
theorem run_ready (hopen : m.ctl.closed = false) (hready : m.ctl.ready ≠ []) :
    ∃ i m', m.run? [.flush, .execute i] = some m' ∧ m'.frames = m.frames ∧
      m'.ctl.inFlight = m.ctl.inFlight ∧ m'.ctl.finished ≠ [] := by
  -- after the flush every ready request sits in a batch at the executor
  obtain ⟨sent, completed, hflush⟩ := Controller.flush_eq_with m.ctl
  have hsent : sent.flatten ≠ [] := by
    intro hnil
    have hperm := Controller.ready_flush_perm hopen
    rw [hflush] at hperm
    simp only [Controller.ready, hnil, List.append_nil] at hperm
    exact hready (List.perm_nil.mp hperm.symm)
  obtain ⟨r, hr⟩ := List.exists_mem_of_ne_nil _ hsent
  obtain ⟨b, hb, hrb⟩ := List.mem_flatten.mp hr
  obtain ⟨i, hi⟩ := List.mem_iff_getElem?.mp hb
  have hi' : m.ctl.flush.sent[i]? = some b := by
    rw [hflush]
    exact hi
  -- running that batch finishes its requests
  have hne : Controller.completionsOf b (m.ctl.store.executeBatch b).1 ≠ [] := by
    intro hnil
    have hlen := congrArg List.length hnil
    simp only [Controller.completionsOf, List.length_map, List.length_zip,
      Store.length_executeBatch, Nat.min_self, List.length_nil] at hlen
    exact List.ne_nil_of_mem hrb (List.eq_nil_of_length_eq_zero hlen)
  refine ⟨i, { m with ctl := m.ctl.flush.execute i, ran := m.ran ++ b }, ?_, rfl, ?_, ?_⟩
  · simp [run?, move?, hi']
  · rw [Controller.execute_of_sent hi']
    exact Controller.flush_inFlight _
  · rw [Controller.execute_of_sent hi']
    simp [Controller.finished, hne]

/-- With nothing ready or finished, nothing is issued, so nothing waits behind a pair: every
request in flight is parked. -/
theorem Inv.parked_of_idle (h : m.Inv []) (hready : m.ctl.ready = [])
    (hfin : m.ctl.finished = []) {id : Nat} (hid : id ∈ m.ctl.inFlight.keys) :
    ∃ x ∈ m.ctl.parked, x.2.id = id := by
  have hissued : m.ctl.issuedIds = [] := by simp [Controller.issuedIds, hready, hfin]
  have hwaiting : m.ctl.waiting = [] := by
    refine List.eq_nil_iff_forall_not_mem.mpr fun r hr => ?_
    obtain ⟨⟨p, q⟩, hpq, -⟩ := List.mem_flatMap.mp hr
    have hq := (h.queue_issued p q (Table.get?_eq_some_of_mem h.queues_keys hpq)).1
    rw [hissued] at hq
    exact List.not_mem_nil hq
  have hmem := h.placed.mem_iff.mpr hid
  simpa only [Controller.placedIds, hwaiting, hissued, List.map_nil, List.append_nil,
    List.mem_map] using hmem

/-- With no completion being processed, a key's owner has a request of its own in flight. -/
theorem Inv.owner_inFlight (h : m.Inv []) (hfr : m.frames = []) {k : Nat} {ko : KeyOwner}
    (hko : m.ctl.ownership.owners.get? k = some ko) :
    ∃ e ∈ m.ctl.inFlight, e.2.record = ko.record := by
  obtain ⟨e, he, -⟩ := h.owner_entry k ko hko
  have hout : 0 < m.outstanding ko.record := by
    have hp := h.pending ko.record
    rw [he] at hp
    have := h.pending_pos _ e he
    simp only [Option.map_some, Option.getD_some] at hp
    omega
  simp only [outstanding, hfr, List.countP_nil, Nat.add_zero] at hout
  obtain ⟨e, he, hrec⟩ := List.countP_pos_iff.mp hout
  exact ⟨e, he, by simpa using hrec⟩

/-- With nothing ready, finished or being processed, nothing is in flight: a key's owner always
has a request in flight that is not parked behind itself. -/
theorem Inv.inFlight_eq_nil_of_idle (h : m.Inv []) (hpo : m.ParkedOrder) (hfr : m.frames = [])
    (hready : m.ctl.ready = []) (hfin : m.ctl.finished = []) : m.ctl.inFlight = [] := by
  refine List.eq_nil_iff_forall_not_mem.mpr fun ⟨id, f⟩ hf => ?_
  -- the request is parked behind the owner of some key, who has a request of its own in flight
  obtain ⟨x, hx, -⟩ := h.parked_of_idle hready hfin (List.mem_map_of_mem hf)
  obtain ⟨⟨k, ko⟩, hko, -⟩ := List.mem_flatMap.mp hx
  have hkoget := Table.get?_eq_some_of_mem h.owners_keys hko
  obtain ⟨⟨id₂, f₂⟩, hf₂, hrec⟩ := h.owner_inFlight hfr hkoget
  have hf₂get := Table.get?_eq_some_of_mem h.inFlight_keys hf₂
  -- that request is parked as well, on the owner's key, behind the owner itself
  obtain ⟨y, hy, hyid⟩ := h.parked_of_idle hready hfin (List.mem_map_of_mem hf₂)
  obtain ⟨⟨k₂, ko₂⟩, hko₂, hyko⟩ := List.mem_flatMap.mp hy
  have hko₂get := Table.get?_eq_some_of_mem h.owners_keys hko₂
  obtain ⟨f₃, hf₃, hrec₃, hdesc⟩ := h.parked_entry y hy
  rw [hyid, hf₂get, Option.some.injEq] at hf₃
  subst hf₃
  obtain ⟨e, he, hek⟩ := h.owner_entry k ko hkoget
  obtain ⟨keyOf, hkf, hkr, -⟩ := h.keyed
  have hk₂ : k₂ = k := by
    rw [← (h.parked_line k₂ ko₂ hko₂get).2 y hyko, ← hdesc.1, hkf id₂ f₂ hf₂get,
      hrec, ← hkr _ e he, hek]
  subst hk₂
  rw [hkoget, Option.some.injEq] at hko₂get
  subst hko₂get
  -- which the order of parked lines rules out
  obtain ⟨t, -, hline⟩ := hpo k₂ ko hkoget
  have hlt := (hline.2.1 y hyko).1
  rw [← hrec₃, hrec] at hlt
  exact Nat.lt_irrefl _ hlt

/-- The progress lemma: while a request is in flight and no completion is being processed,
internal moves bring one request to completion. -/
theorem Inv.take_one (h : m.Inv []) (hpo : m.ParkedOrder) (hopen : m.ctl.closed = false)
    (hfr : m.frames = []) (hne : m.ctl.inFlight ≠ []) :
    ∃ mvs m', mvs.all Move.isInternal = true ∧ m.run? mvs = some m' ∧ m'.frames = [] ∧
      m'.ctl.inFlight.length < m.ctl.inFlight.length := by
  by_cases hfin : m.ctl.finished = []
  · by_cases hready : m.ctl.ready = []
    · exact absurd (h.inFlight_eq_nil_of_idle hpo hfr hready hfin) hne
    · -- run a batch holding a ready request, then take one of its completions
      obtain ⟨i, m₁, hrun₁, hfr₁, hfl₁, hfin₁⟩ := run_ready hopen hready
      obtain ⟨m₂, hrun₂, hfr₂, hlt⟩ :=
        (h.run? hrun₁).take_finished (hfr₁.trans hfr) hfin₁
      refine ⟨[.flush, .execute i] ++ [.receive, .begin 0, .finish 0], m₂, rfl, ?_, hfr₂,
        ?_⟩
      · rw [run?_append, hrun₁]
        exact hrun₂
      · rw [← hfl₁]
        exact hlt
  · obtain ⟨m', hrun, hfr', hlt⟩ := h.take_finished hfr hfin
    exact ⟨_, m', rfl, hrun, hfr', hlt⟩

end Machine

open Machine

/-! ## Every program run -/

/-- Every program run can be drained: internal moves, which extend it as a program run, reach a
machine with nothing in flight. -/
theorem ProgramRun.drains {cfg : Config} {ops : List Op} {m : Machine τ}
    {answers : List (Except StateError Nat)} (hrun : ProgramRun cfg ops m answers) :
    ∃ mvs m', mvs.all Move.isInternal = true ∧ m.run? mvs = some m' ∧
      m'.ctl.inFlight = [] := by
  -- the induction is on how many requests are in flight, once no completion is being processed
  suffices hdrain : ∀ n (m : Machine τ), ProgramRun cfg ops m answers → m.frames = [] →
      m.ctl.inFlight.length ≤ n →
      ∃ mvs m', mvs.all Move.isInternal = true ∧ m.run? mvs = some m' ∧
        m'.ctl.inFlight = [] by
    obtain ⟨mvs₀, m₀, hint₀, hrun₀, hfr₀, -⟩ := finish_all m
    obtain ⟨mvs, m', hint, hr, hd⟩ :=
      hdrain _ m₀ (hrun.run? hrun₀ hint₀) hfr₀ (Nat.le_refl _)
    refine ⟨mvs₀ ++ mvs, m', by simp [hint₀, hint], ?_, hd⟩
    rw [run?_append, hrun₀]
    exact hr
  intro n
  induction n with
  | zero =>
    intro m _ _ hn
    exact ⟨[], m, rfl, rfl, List.eq_nil_of_length_eq_zero (Nat.le_zero.mp hn)⟩
  | succ n ih =>
    intro m hrun hfr hn
    by_cases hne : m.ctl.inFlight = []
    · exact ⟨[], m, rfl, rfl, hne⟩
    · have hm := hrun.orderly
      obtain ⟨mvs, m₁, hint, hr, hfr₁, hlt⟩ :=
        hm.reachable.inv.take_one hm.parkedOrder hrun.unclosed hfr hne
      obtain ⟨mvs', m₂, hint', hr', hd⟩ := ih m₁ (hrun.run? hr hint) hfr₁ (by omega)
      refine ⟨mvs ++ mvs', m₂, by simp [hint, hint'], ?_, hd⟩
      rw [run?_append, hr]
      exact hr'

end OrderedState
