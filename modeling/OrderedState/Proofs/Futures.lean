import OrderedState.Proofs.Context
import OrderedState.Proofs.Locality

/-!
# A future holds its request's result from the moment its completion is taken

The processing thread resolves a request's future when it takes the request's completion, with
the completion's result. The future of request `id` is therefore `Machine.future? m id`: the
result of the completion of `id` among those taken, if there is one. This module shows that the
futures behave as promised:

* a submitted request's future is unresolved exactly while the request is in flight, since the
  completions taken and the requests in flight together are the submitted requests, once each
  (`Machine.Accounted`);
* a resolved future holds exactly what the store's batch execution produced for its request, the
  store runs each request at most once, and no future is resolved twice or changes later;
* so once nothing is in flight every submitted future is resolved, with a store result and never
  with `Abandoned`: `wait_for`, which gives up only when nothing is in flight, always returns
  the future's own result;
* taking a completion does to the controller what it would do with any other result, so a
  failure releases its pair and its record as a success does.

The results come from the invariant `Machine.Answered`: the store holds what the requests it ran
leave, and the completions made (finished or taken) are, up to order, exactly the completions of
the requests the store ran, with the store's results. A batch sent after the controller is shut
would complete with `Closed` instead, without reaching the store; `close` drains the controller
before it shuts it, so no request is in flight then and no such batch is ever sent. `Graceful`
runs are the runs that shut the controller that way.
-/

namespace OrderedState

variable {τ : Type}

namespace Store

/-- The store fails a request only with a store error. -/
theorem apply_error {s : Store} {r : Request} {e : StateError} (h : s.apply r = .error e) :
    ∃ msg, e = .store msg := by
  -- every failing arm reports `malformed` or `wrongContents`, both store errors
  unfold apply at h
  repeat' split at h
  all_goals
    rcases hg : s.get? r.address with _ | ⟨_ | _ | _⟩ <;>
    simp only [hg, reduceCtorEq, Except.error.injEq, Except.map] at h <;>
    (try split at h) <;> (try simp only [reduceCtorEq, Except.error.injEq] at h) <;>
    (try (subst h; exact ⟨_, rfl⟩))

theorem execute_error {s : Store} {r : Request} {e : StateError}
    (h : (s.execute r).1 = .error e) : ∃ msg, e = .store msg := by
  cases hap : ({ s with executed := s.executed + 1 } : Store).apply r with
  | ok p => simp [execute, hap] at h
  | error e' =>
    simp only [execute, hap, Except.error.injEq] at h
    exact h ▸ apply_error hap

/-- Every result of a run of requests is a response or a store error. -/
theorem executeBatch_error {s : Store} {l : List Request} {res : Except StateError Response}
    (hres : res ∈ (s.executeBatch l).1) {e : StateError} (he : res = .error e) :
    ∃ msg, e = .store msg := by
  induction l generalizing s with
  | nil => simp [executeBatch] at hres
  | cons r rest ih =>
    simp only [executeBatch, List.mem_cons] at hres
    rcases hres with rfl | hres
    · exact execute_error he
    · exact ih hres

end Store

namespace Controller

theorem completionsOf_append {l₁ l₂ : List Request} {r₁ r₂ : List (Except StateError Response)}
    (h : l₁.length = r₁.length) :
    completionsOf (l₁ ++ l₂) (r₁ ++ r₂) = completionsOf l₁ r₁ ++ completionsOf l₂ r₂ := by
  simp [completionsOf, List.zip_append h]

/-- A completion of a batch carries one of the batch's results. -/
theorem result_mem_of_completionsOf {l : List Request} {rs : List (Except StateError Response)}
    {comp : Completion} (h : comp ∈ completionsOf l rs) : comp.result ∈ rs := by
  obtain ⟨⟨x, res⟩, hmem, rfl⟩ := List.mem_map.mp h
  exact (List.of_mem_zip hmem).2

/-- Taking the next completion does not look at its result: the request it resolves, the
context it saves and the controller it leaves are the same whatever the result is. -/
theorem beginCompletion_result (c : Controller τ) (now : Nat) {comp : Completion}
    {rest : List Completion} (hc : c.completed = comp :: rest) (r : Except StateError Response) :
    (({ c with completed := ⟨comp.id, r⟩ :: rest } : Controller τ).beginCompletion now).map
        (·.2) = (c.beginCompletion now).map (·.2) := by
  rw [beginCompletion_eq, beginCompletion_eq, hc]
  simp only [nextCompletion]
  cases c.inFlight.get? comp.id with
  | none => simp [Option.map_map, Function.comp_def]
  | some f => rfl

end Controller

/-- A middle part of a list moved to its end. -/
theorem perm_middle_to_end {α : Type} (a b c : List α) : (a ++ b ++ c).Perm (a ++ c ++ b) := by
  simpa only [List.append_assoc] using
    (List.perm_append_comm : (b ++ c).Perm (c ++ b)).append_left a

namespace Machine

variable {m m' : Machine τ}

/-! ## Runs that close the controller as `close` does -/

/-- The machines reached by runs that shut the controller only when nothing is in flight, as
`close` does: it drains the controller first. -/
inductive Graceful (cfg : Config) : Machine τ → Prop where
  | start : Graceful cfg (start cfg)
  | step {m m' : Machine τ} : Graceful cfg m → Step m m' →
      (m.ctl.closed = false → m'.ctl.closed = true → m.ctl.inFlight = []) → Graceful cfg m'

theorem Graceful.reachable {cfg : Config} (h : Graceful cfg m) : Reachable cfg m := by
  induction h with
  | start => exact .start
  | step _ hs _ ih => exact .step ih hs

/-- A move other than shutting leaves the controller open or closed as it was. -/
theorem move?_closed {mv : Move τ} (h : m.move? mv = some m') (hmv : mv ≠ .shut) :
    m'.ctl.closed = m.ctl.closed := by
  cases mv with
  | flush => cases h; exact Controller.flush_closed _
  | execute i =>
    obtain ⟨batch, -, rfl⟩ := Option.map_eq_some_iff.mp h
    obtain ⟨sent, mailbox, store, he⟩ := m.ctl.execute_eq_with i
    show (m.ctl.execute i).closed = _
    rw [he]
  | receive => cases h; rfl
  | begin now =>
    obtain ⟨⟨comp, f, previous, c⟩, hb, rfl⟩ := Option.map_eq_some_iff.mp h
    obtain ⟨pre, rest, -, -, -, -, hc⟩ := Controller.beginCompletion_eq_some hb
    show c.closed = _
    rw [hc]
    exact Controller.releasePair_closed ..
  | finish now =>
    cases hfr : m.frames with
    | nil => simp [move?, hfr] at h
    | cons fr rest =>
      simp only [move?, hfr, Option.some.injEq] at h
      subst h
      exact Controller.endCompletion_closed ..
  | setKey key => cases h; rfl
  | submit now state kind rt ns payload promise =>
    obtain ⟨c, hc, rfl⟩ := Option.map_eq_some_iff.mp h
    have hok : m.ctl.submit now state kind rt ns payload promise = .ok c := by
      revert hc
      cases m.ctl.submit now state kind rt ns payload promise <;> simp [Except.toOption]
    obtain ⟨-, -, -, hcl, -⟩ := Controller.submit_fields (Controller.submit_open hok) hok
    rw [hcl, Controller.submit_open hok]
  | shut => exact absurd rfl hmv

/-- A run of moves that never shuts the controller is graceful. -/
theorem Graceful.run? {cfg : Config} (h : Graceful cfg m) {mvs : List (Move τ)}
    (hr : m.run? mvs = some m') (hmvs : ∀ mv ∈ mvs, mv ≠ .shut) : Graceful cfg m' := by
  induction mvs generalizing m with
  | nil => cases hr; exact h
  | cons mv rest ih =>
    obtain ⟨m₁, h₁, h₂⟩ := Option.bind_eq_some_iff.mp hr
    have hcl := move?_closed h₁ (hmvs mv (List.mem_cons_self ..))
    refine ih (.step h (step_of_move? h₁) fun hopen hshut => ?_) h₂
      fun mv' hmv' => hmvs mv' (List.mem_cons_of_mem _ hmv')
    rw [hcl, hopen] at hshut
    cases hshut

/-! ## The results of the completions made -/

/-- The store holds what the requests it ran leave; the completions made, finished or taken, are
the completions of the requests the store ran, with its results; and the controller is shut only
with nothing in flight. -/
structure Answered (m : Machine τ) : Prop where
  store : m.ctl.store = (Store.executeBatch {} m.ran).2
  made : (m.ctl.finished ++ m.taken).Perm
    (Controller.completionsOf m.ran (Store.executeBatch {} m.ran).1)
  idle_shut : m.ctl.closed = true → m.ctl.inFlight = []

theorem answered_start (cfg : Config) : (start cfg : Machine τ).Answered where
  store := rfl
  made := by simp [start, Controller.finished, Controller.completionsOf, Store.executeBatch]
  idle_shut := fun h => by cases h

/-- With nothing in flight the ready buffer is empty. -/
theorem Inv.active_of_idle (h : m.Inv []) (hd : m.ctl.inFlight = []) : m.ctl.active = [] := by
  have hnil : m.ctl.placedIds = [] := by
    have hp := h.placed_perm
    rw [hd] at hp
    exact List.Perm.nil_eq hp.symm |>.symm
  simp only [Controller.placedIds, Controller.issuedIds, Controller.ready, List.append_eq_nil_iff,
    List.map_eq_nil_iff] at hnil
  exact hnil.2.1.1

/-- Every collected completion belongs to a request in flight, so the completion taken is the
first one. -/
theorem Inv.begin_first (h : m.Inv []) {now : Nat} {comp : Completion} {f : InFlight τ}
    {previous : Option RecordContext} {c : Controller τ}
    (hb : m.ctl.beginCompletion now = some (comp, f, previous, c)) :
    ∃ rest, m.ctl.completed = comp :: rest ∧ c.finished = m.ctl.mailbox.flatten ++ rest := by
  obtain ⟨pre, rest, hcomp, hpre, -, -, hc⟩ := Controller.beginCompletion_eq_some hb
  cases pre with
  | nil =>
    refine ⟨rest, hcomp, ?_⟩
    rw [hc]
    exact Controller.releasePair_finished ..
  | cons x xs =>
    obtain ⟨g, hg, -⟩ := h.known (show m.ctl.completed = x :: (xs ++ comp :: rest) from hcomp)
    rw [hpre x (List.mem_cons_self ..)] at hg
    cases hg

/-- A transition that runs nothing and makes no completion keeps the invariant, as long as the
controller stays open or idle. -/
theorem Answered.of_same (ha : m.Answered) (hstore : m'.ctl.store = m.ctl.store)
    (hran : m'.ran = m.ran) (hmade : (m'.ctl.finished ++ m'.taken).Perm (m.ctl.finished ++ m.taken))
    (hshut : m'.ctl.closed = true → m'.ctl.inFlight = []) : m'.Answered where
  store := by rw [hstore, hran]; exact ha.store
  made := by rw [hran]; exact hmade.trans ha.made
  idle_shut := hshut

/-- The executor running a batch: its completions carry the store's results, and the store
moves on by the batch. -/
theorem Answered.execute (ha : m.Answered) {i : Nat} {batch : List Request}
    (hb : m.ctl.sent[i]? = some batch) :
    ({ m with ctl := m.ctl.execute i, ran := m.ran ++ batch } : Machine τ).Answered := by
  have hex := Controller.execute_of_sent hb
  have hlen := (Store.length_executeBatch {} m.ran).symm
  constructor
  case store =>
    show (m.ctl.execute i).store = _
    rw [hex, Store.executeBatch_append, ← ha.store]
  case made =>
    show ((m.ctl.execute i).finished ++ m.taken).Perm _
    rw [hex, Store.executeBatch_append, Controller.completionsOf_append hlen, ← ha.store]
    refine List.Perm.trans ?_ (ha.made.append_right _)
    -- the batch's completions join the mailbox
    simpa only [Controller.finished, List.flatten_append, List.flatten_cons, List.flatten_nil,
      List.append_nil, List.append_assoc] using
      perm_middle_to_end m.ctl.mailbox.flatten _ (m.ctl.completed ++ m.taken)
  case idle_shut =>
    show (m.ctl.execute i).closed = true → (m.ctl.execute i).inFlight = []
    rw [hex]
    exact ha.idle_shut

/-- Taking a completion moves it from the finished completions to the taken ones. -/
theorem Answered.begin (ha : m.Answered) (h : m.Inv []) {now : Nat} {comp : Completion}
    {f : InFlight τ} {previous : Option RecordContext} {c : Controller τ}
    (hb : m.ctl.beginCompletion now = some (comp, f, previous, c)) :
    ({ m with ctl := c, frames := ⟨f.record, previous⟩ :: m.frames,
              taken := m.taken ++ [comp] } : Machine τ).Answered := by
  obtain ⟨rest, hcomp, hfin⟩ := h.begin_first hb
  obtain ⟨pre, rest', -, -, hf, -, hc⟩ := Controller.beginCompletion_eq_some hb
  refine ha.of_same (by rw [hc]; exact Controller.releasePair_store ..) rfl ?_ ?_
  · show (c.finished ++ (m.taken ++ [comp])).Perm (m.ctl.finished ++ m.taken)
    rw [hfin, Controller.finished, hcomp]
    simpa only [List.append_assoc, List.singleton_append, List.cons_append, List.nil_append] using
      (perm_middle_to_end m.ctl.mailbox.flatten [comp] (rest ++ m.taken)).symm
  · -- a request was in flight, so the controller was open
    intro hshut
    have hcl : c.closed = m.ctl.closed := by
      rw [hc]
      exact Controller.releasePair_closed ..
    have hopen : m.ctl.closed = true := by
      rw [← hcl]
      exact hshut
    rw [ha.idle_shut hopen] at hf
    cases hf

/-- The step lemma of the results along graceful runs. -/
theorem Answered.step (ha : m.Answered) (h : m.Inv []) (hs : Step m m')
    (hguard : m.ctl.closed = false → m'.ctl.closed = true → m.ctl.inFlight = []) :
    m'.Answered := by
  cases hs with
  | internal hi =>
    cases hi with
    | flush =>
      -- once shut nothing is in flight, so nothing is ready to complete as `Closed`
      refine ha.of_same (Controller.flush_store _) rfl ?_ ?_
      · show (m.ctl.flush.finished ++ m.taken).Perm _
        cases hcl : m.ctl.closed with
        | false => rw [Controller.flush_finished hcl]
        | true =>
          simp only [Controller.flush_eq, Controller.dispatch,
            h.active_of_idle (ha.idle_shut hcl), List.isEmpty_nil, if_true]
          exact List.Perm.refl _
      · rw [Controller.flush_closed, Controller.flush_inFlight]
        exact ha.idle_shut
    | execute i batch hb => exact ha.execute hb
    | receive =>
      refine ha.of_same rfl rfl ?_ ha.idle_shut
      simpa only [Controller.receive, Controller.finished, List.flatten_nil, List.nil_append] using
        List.perm_append_comm.append_right m.taken
    | begin now comp f previous c hb => exact ha.begin h hb
    | finish now fr rest hfr =>
      obtain ⟨o, qs, a, s, he⟩ := m.ctl.endCompletion_eq_with now fr.record fr.previous
      refine ha.of_same (by rw [he]) rfl (by rw [he]; exact List.Perm.refl _) ?_
      rw [he]
      exact ha.idle_shut
    | nestedKey key _ => exact ha.of_same rfl rfl (.refl _) ha.idle_shut
  | setKey key => exact ha.of_same rfl rfl (.refl _) ha.idle_shut
  | submit now state kind rt ns payload promise c hsub =>
    obtain ⟨-, -, -, hcl, -, -, hstore, hfin⟩ :=
      Controller.submit_fields (Controller.submit_open hsub) hsub
    refine ha.of_same hstore rfl (by rw [hfin]) fun hshut => ?_
    rw [hcl] at hshut
    cases hshut
  | shut =>
    refine ha.of_same rfl rfl (.refl _) fun _ => ?_
    cases hcl : m.ctl.closed with
    | false => exact hguard hcl rfl
    | true => exact ha.idle_shut hcl

/-- The run lemma of the results. -/
theorem Graceful.answered {cfg : Config} (h : Graceful cfg m) : m.Answered := by
  induction h with
  | start => exact answered_start _
  | step hm hs hguard ih => exact ih.step hm.reachable.inv hs hguard

/-! ## Futures -/

/-- The result the future of request `id` holds: that of the request's completion once the
processing thread has taken it; nothing before. -/
def future? (m : Machine τ) (id : Nat) : Option (Except StateError Response) :=
  (m.taken.find? (·.id = id)).map (·.result)

/-- What `wait_for` returns for the future of request `id` when it stops: the future's result,
or `Abandoned` if it is still unresolved. It stops once the future is resolved, or once a turn
completed nothing and nothing is in flight. -/
def waitResult (m : Machine τ) (id : Nat) : Except StateError Response :=
  (m.future? id).getD (.error .abandoned)

theorem future?_eq_none_iff {id : Nat} : m.future? id = none ↔ id ∉ m.taken.map (·.id) := by
  simp [future?, List.find?_eq_none]

theorem future?_eq_some {id : Nat} {r : Except StateError Response}
    (h : m.future? id = some r) : (⟨id, r⟩ : Completion) ∈ m.taken := by
  obtain ⟨comp, hfind, rfl⟩ := Option.map_eq_some_iff.mp h
  have hid : comp.id = id := by simpa using List.find?_some hfind
  rw [← hid]
  exact List.mem_of_find?_eq_some hfind

/-- What the futures of the submitted requests hold in a state. -/
structure Futures (m : Machine τ) : Prop where
  /-- The future of a submitted request is unresolved exactly while it is in flight. -/
  unresolved_iff : ∀ id < m.ctl.nextId, m.future? id = none ↔ id ∈ m.ctl.inFlight.keys
  /-- A resolved future holds the result the store's batch execution produced for its
  request. -/
  resolved_result : ∀ id r, m.future? id = some r →
    (⟨id, r⟩ : Completion) ∈ Controller.completionsOf m.ran (Store.executeBatch {} m.ran).1
  /-- The store runs each request at most once. -/
  ran_once : (m.ran.map (·.id)).Nodup
  /-- No future is resolved twice. -/
  resolved_once : (m.taken.map (·.id)).Nodup
  /-- A resolved future keeps its result along every transition. -/
  stays : ∀ m', Step m m' → ∀ id r, m.future? id = some r → m'.future? id = some r
  /-- When `wait_for` stops, it returns the future's own result, which is never `Abandoned`. -/
  wait_agrees : ∀ id < m.ctl.nextId, (m.future? id).isSome ∨ m.ctl.inFlight = [] →
    ∃ r, m.future? id = some r ∧ m.waitResult id = r ∧ r ≠ .error .abandoned
  /-- Taking the next completion does to the controller what it would do with any result. -/
  failure_blind : ∀ now comp rest r, m.ctl.completed = comp :: rest →
    (({ m.ctl with completed := ⟨comp.id, r⟩ :: rest } : Controller τ).beginCompletion now).map
      (·.2) = (m.ctl.beginCompletion now).map (·.2)

/-- A resolved future's result came from the store, and so is no `Abandoned`. -/
theorem Answered.not_abandoned (ha : m.Answered) {id : Nat} {r : Except StateError Response}
    (hr : (⟨id, r⟩ : Completion) ∈ m.ctl.finished ++ m.taken) : r ≠ .error .abandoned := by
  intro habandoned
  have hres := Controller.result_mem_of_completionsOf (ha.made.mem_iff.mp hr)
  obtain ⟨msg, hmsg⟩ := Store.executeBatch_error hres habandoned
  cases hmsg

/-- A resolved future stays resolved with the same result: completions taken are only ever
added after the others. -/
theorem Step.future?_stays (hs : Step m m') {id : Nat} {r : Except StateError Response}
    (h : m.future? id = some r) : m'.future? id = some r := by
  rcases Step.ledger hs with ⟨ht, -⟩ | ⟨comp, -, -, ht, -⟩ | ⟨-, ht, -⟩
  · rw [future?, ht]
    exact h
  · obtain ⟨comp', hfind, hres⟩ := Option.map_eq_some_iff.mp h
    rw [future?, ht, List.find?_append, hfind]
    exact congrArg some hres
  · rw [future?, ht]
    exact h

end Machine

open Machine

/-- A submitted future stays unresolved exactly while its request is in flight, and is resolved
once, with the result the store's batch execution produced for its request. Along every run
that closes the controller as `close` does: the future of a submitted request is unresolved
iff the request is in flight; a resolved future holds the store's result for its request, which
the store ran once; no future is resolved twice, nor changes once resolved; `wait_for` returns
the future's own result, never `Abandoned`, since it stops only once the future is resolved or
nothing is in flight; and taking a completion does the same to the controller whatever its
result, so a failure releases its pair and record as a success does. -/
theorem futures_resolve_once {cfg : Config} {m : Machine τ} (hm : Graceful cfg m) :
    m.Futures := by
  have h := hm.reachable.inv
  have ha := hm.answered
  have hacc := hm.reachable.accounted
  have hnodup : (m.taken.map (·.id) ++ m.ctl.inFlight.keys).Nodup :=
    hacc.nodup_iff.mpr List.nodup_range
  -- the completions made carry distinct ids, as the requests the store ran do
  have hmade : ((m.ctl.finished ++ m.taken).map (·.id)).Nodup :=
    (List.nodup_append.mp ((h.completed_once hacc).nodup_iff.mpr List.nodup_range)).2.1
  have hran : (m.ctl.finished ++ m.taken).map (·.id) |>.Perm (m.ran.map (·.id)) := by
    rw [← ids_completionsOf m.ran _ (Store.length_executeBatch {} m.ran)]
    exact ha.made.map _
  -- a submitted request's future is unresolved exactly while it is in flight
  have hiff : ∀ id < m.ctl.nextId, m.future? id = none ↔ id ∈ m.ctl.inFlight.keys := by
    intro id hid
    have hmem : id ∈ m.taken.map (·.id) ++ m.ctl.inFlight.keys :=
      hacc.mem_iff.mpr (List.mem_range.mpr hid)
    rw [future?_eq_none_iff]
    constructor
    · intro hnot
      exact (List.mem_append.mp hmem).resolve_left hnot
    · intro hin htaken
      exact (List.nodup_append.mp hnodup).2.2 id htaken id hin rfl
  have hresult : ∀ id r, m.future? id = some r →
      (⟨id, r⟩ : Completion) ∈ Controller.completionsOf m.ran (Store.executeBatch {} m.ran).1 :=
    fun id r hr => ha.made.mem_iff.mp (List.mem_append_right _ (future?_eq_some hr))
  refine ⟨hiff, hresult, hran.nodup_iff.mp hmade, hnodup.sublist (List.sublist_append_left _ _),
    fun m' hs id r hr => Step.future?_stays hs hr, ?_, fun now comp rest r hc =>
      Controller.beginCompletion_result m.ctl now hc r⟩
  -- `wait_for` stops at a resolved future
  intro id hid hstop
  obtain ⟨r, hr⟩ : ∃ r, m.future? id = some r := by
    rcases hstop with hsome | hidle
    · exact Option.isSome_iff_exists.mp hsome
    · refine Option.ne_none_iff_exists'.mp fun hnone => ?_
      have := (hiff id hid).mp hnone
      rw [hidle] at this
      cases this
  exact ⟨r, hr, by simp [waitResult, hr],
    ha.not_abandoned (List.mem_append_right _ (future?_eq_some hr))⟩

/-- `readCollected` with its completion taken and ended. -/
def Machine.readTaken : Machine Unit :=
  (Machine.readCollected.run? [.begin 0, .finish 0]).getD Machine.readCollected

theorem Machine.graceful_readTaken : Graceful {} Machine.readTaken := by
  have hrun : (start {} : Machine Unit).run?
      [.setKey 5, .submit 0 "s" .value .valueGet [] .empty (), .flush, .execute 0, .receive,
        .begin 0, .finish 0] = some Machine.readTaken := rfl
  exact Graceful.start.run? hrun (by simp)

theorem readTaken_futures_resolve_once :
    Graceful {} Machine.readTaken ∧ Machine.readTaken.future? 0 = some (.ok (.value none)) ∧
      Machine.readTaken.Futures :=
  ⟨Machine.graceful_readTaken, rfl, futures_resolve_once Machine.graceful_readTaken⟩

end OrderedState
