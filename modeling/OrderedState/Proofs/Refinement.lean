import Mathlib.Data.List.Forall2
import Mathlib.Data.List.Nodup
import OrderedState.Proofs.Drain
import OrderedState.Proofs.Locality

/-!
# Taking a program is running it at once

A program of the processing thread whose continuations submit nothing gets the same answers from
the controller as from the direct handler, however the controller, the executor and the
completions interleave with it, and it leaves the same store. The argument is a simulation
(`Simulates`) between the machine taking the program and the direct handler that has run it,
over the requests the controller accepted, in order:

* the two agree on the current key and the next id, and the direct store is what the accepted
  requests leave;
* the controller's store is what the requests the executor ran leave, and every completion made
  or taken carries what the store answered its request after the requests run before it;
* every accepted request has been taken or is in flight;
* for each (key, state) pair, the requests run and then the pair's line in the controller
  (`Controller.pairLine`: ready, waiting, parked) are the pair's accepted requests, in order.

Every step of a program run keeps it (`ProgramRun.simulates`). Once nothing is in flight every
line is empty, so each pair's requests ran in the order they were accepted. The store works one
address at a time (`Proofs.Locality`), so each request got the answer the direct handler gives
it, and the two stores hold the same contents (`ProgramRun.refines_of_drained`). Every program
run can be drained (`Proofs.Drain`), so every accepted request is answered
(`program_refines_direct`).
-/

namespace OrderedState

variable {τ : Type}

/-! ## Answers fixed by a pair's requests -/

namespace Store

/-- Every completion of a batch carries what the store answers its request after the requests
before it in the batch. -/
theorem mem_completionsOf_executeBatch {s : Store} {batch : List Request} {comp : Completion}
    (h : comp ∈ Controller.completionsOf batch (s.executeBatch batch).1) :
    ∃ pre x post, batch = pre ++ x :: post ∧
      comp = ⟨x.id, ((s.executeBatch pre).2.execute x).1⟩ := by
  induction batch generalizing s with
  | nil => simp [Controller.completionsOf, executeBatch] at h
  | cons r rest ih =>
    simp only [executeBatch, Controller.completionsOf, List.zip_cons_cons, List.map_cons,
      List.mem_cons] at h
    rcases h with rfl | h
    · exact ⟨[], r, rest, rfl, rfl⟩
    · obtain ⟨pre, x, post, hb, hc⟩ := ih h
      exact ⟨r :: pre, x, post, by rw [hb]; rfl, hc⟩

/-- The requests at an address are among those at its pair. -/
theorem filter_address_eq (l : List Request) (a : Address) :
    l.filter (·.address = a) =
      (l.filter (·.pair = (a.key, a.state))).filter (·.address = a) := by
  rw [List.filter_filter]
  refine List.filter_congr fun r _ => ?_
  by_cases h : r.address = a
  · have hp : r.pair = (a.key, a.state) := by subst h; rfl
    simp [h, hp]
  · simp [h]

/-- A request answers the same after two runs that hold the same requests of its pair, in the
same order. -/
theorem execute_congr_pair (s : Store) {pre₁ pre₂ : List Request} (x : Request)
    (h : pre₁.filter (·.pair = x.pair) = pre₂.filter (·.pair = x.pair)) :
    ((s.executeBatch pre₁).2.execute x).1 = ((s.executeBatch pre₂).2.execute x).1 := by
  have h' : pre₁.filter (·.pair = (x.address.key, x.address.state)) =
      pre₂.filter (·.pair = (x.address.key, x.address.state)) := h
  rw [execute_after_filter s pre₁, execute_after_filter s pre₂, filter_address_eq pre₁,
    filter_address_eq pre₂, h']

/-- An address holds the same after two runs that hold the same requests of its pair, in the
same order. -/
theorem get?_congr_pair (s : Store) {l₁ l₂ : List Request} (a : Address)
    (h : l₁.filter (·.pair = (a.key, a.state)) = l₂.filter (·.pair = (a.key, a.state))) :
    (s.executeBatch l₁).2.get? a = (s.executeBatch l₂).2.get? a := by
  rw [get?_executeBatch_filter rfl l₁, get?_executeBatch_filter (t := s) rfl l₂,
    filter_address_eq l₁, filter_address_eq l₂, h]

end Store

/-- In a list whose elements have distinct images, an element is the only one with its image. -/
theorem filter_eq_singleton_of_nodup_map {α β : Type} [DecidableEq β] {f : α → β}
    {l : List α} {a : α} (hnd : (l.map f).Nodup) (ha : a ∈ l) :
    l.filter (fun b => f b = f a) = [a] := by
  induction l with
  | nil => simp at ha
  | cons b rest ih =>
    simp only [List.map_cons, List.nodup_cons, List.mem_map, not_exists, not_and] at hnd
    rcases List.mem_cons.mp ha with rfl | ha
    · -- no later element shares its image
      rw [List.filter_cons_of_pos (by simp),
        List.filter_eq_nil_iff.mpr fun c hc hfc => hnd.1 c hc (of_decide_eq_true hfc)]
    · have hba : f b ≠ f a := fun hfb => hnd.1 a ha hfb.symm
      rw [List.filter_cons_of_neg (by simpa using hba), ih hnd.2 ha]

/-- In a list without repeats, what stands before an element is fixed by the element. -/
theorem prefix_eq_of_nodup {α : Type} {l₁ l₂ r₁ r₂ : List α} {a : α}
    (h : l₁ ++ a :: r₁ = l₂ ++ a :: r₂) (hnd : (l₁ ++ a :: r₁).Nodup) :
    l₁ = l₂ := by
  obtain ⟨-, hcons, hdisj⟩ := List.nodup_append.mp hnd
  have hl : a ∉ l₁ := fun ha => hdisj a ha a (List.mem_cons_self ..) rfl
  exact ((List.append_cons_inj_of_notMem hl (List.nodup_cons.mp hcons).1).mp h).1

theorem Machine.top_of_current {m : Machine τ} {c : Controller τ}
    (h : c.current = m.ctl.current) : ({ m with ctl := c } : Machine τ).top = m.top := by
  simp [Machine.top, h]

/-! ## The direct handler, one operation at a time -/

namespace Direct

variable {d : Direct} {state : String} {kind : StateKind} {rt : RequestType} {ns : Bytes}
  {payload : Payload}

/-- A request type or payload that does not fit the state is refused, and nothing changes. -/
theorem perform_invalid {e : StateError} (hv : rt.validate state kind payload = .error e) :
    d.perform (.submit state kind rt ns payload) = ([.error e], d) := by
  simp [perform, execute, hv, bind, Except.bind]

/-- With no current key a submission is refused, and nothing changes. -/
theorem perform_unkeyed (hv : rt.validate state kind payload = .ok ()) (hk : d.current = none) :
    d.perform (.submit state kind rt ns payload) = ([.error .noCurrentKey], d) := by
  simp [perform, execute, hv, hk, bind, Except.bind]

/-- A submission runs its request, with the next id as id and sequence number, on the store. -/
theorem perform_keyed {key : Nat} (hv : rt.validate state kind payload = .ok ())
    (hk : d.current = some key) :
    d.perform (.submit state kind rt ns payload) =
      ([.ok (d.store.execute ⟨d.nextId, key, state, kind, ns, rt, payload, d.nextId⟩).1],
        { d with
          store := (d.store.execute ⟨d.nextId, key, state, kind, ns, rt, payload, d.nextId⟩).2,
          nextId := d.nextId + 1 }) := by
  simp [perform, execute, hv, hk, bind, Except.bind, pure, Except.pure]

end Direct

/-! ## The simulation -/

/-- A completion carries what the store answered its request after the requests run before it,
in the run `ran`. -/
def Completion.RanAfter (comp : Completion) (ran : List Request) : Prop :=
  ∃ pre x post, ran = pre ++ x :: post ∧
    comp = ⟨x.id, ((Store.executeBatch {} pre).2.execute x).1⟩

theorem Completion.RanAfter.append {comp : Completion} {ran : List Request}
    (h : comp.RanAfter ran) (more : List Request) : comp.RanAfter (ran ++ more) := by
  obtain ⟨pre, x, post, hran, hc⟩ := h
  exact ⟨pre, x, post ++ more, by simp [hran], hc⟩

/-- A submission's answer on the controller against its answer on the direct handler, given the
requests the controller accepted, in order: the same synchronous error, or the id of an
accepted request and the store's answer to it after the requests accepted before it. -/
def AnswerMatch (subs : List Request) :
    Except StateError Nat → Except StateError (Except StateError Response) → Prop
  | .error e, r => r = .error e
  | .ok id, r => ∃ pre x post, subs = pre ++ x :: post ∧ x.id = id ∧
      r = .ok ((Store.executeBatch {} pre).2.execute x).1

theorem AnswerMatch.append {subs : List Request} {a : Except StateError Nat}
    {r : Except StateError (Except StateError Response)} (h : AnswerMatch subs a r)
    (more : List Request) : AnswerMatch (subs ++ more) a r := by
  cases a with
  | error e => exact h
  | ok id =>
    obtain ⟨pre, x, post, hs, hx, hr⟩ := h
    exact ⟨pre, x, post ++ more, by simp [hs], hx, hr⟩

/-- The simulation between a machine taking a program and the direct handler `d` that has run
it, with `subs` the requests the controller accepted, in order. -/
structure Simulates (m : Machine τ) (d : Direct) (subs : List Request) : Prop where
  key : m.top.map (·.key) = d.current
  nextId : m.ctl.nextId = d.nextId
  ids : subs.map (·.id) = List.range d.nextId
  sequence : ∀ x ∈ subs, x.sequence = x.id
  store : d.store = (Store.executeBatch {} subs).2
  ran_store : m.ctl.store = (Store.executeBatch {} m.ran).2
  results : ∀ comp ∈ m.ctl.finished ++ m.taken, comp.RanAfter m.ran
  accounts : (m.taken.map (·.id) ++ m.ctl.inFlight.keys).Perm (subs.map (·.id))
  lines : ∀ p, m.ran.filter (·.pair = p) ++ m.ctl.pairLine p = subs.filter (·.pair = p)

namespace Simulates

open Machine
open scoped List

variable {m m' : Machine τ} {d : Direct} {subs : List Request}

theorem start (cfg : Config) : Simulates (Machine.start cfg : Machine τ) {} [] where
  key := rfl
  nextId := rfl
  ids := rfl
  sequence := by simp
  store := rfl
  ran_store := rfl
  results := by simp [Machine.start, Controller.finished]
  accounts := by simp [Machine.start, Table.keys]
  lines := by
    simp [Machine.start, Controller.pairLine, Controller.ready, Controller.waitingAt,
      Ownership.parkedAt]

/-- A transition that runs nothing and accepts nothing keeps the simulation as long as it keeps
what the simulation reads. -/
theorem of_same (hs : Simulates m d subs) (htop : m'.top = m.top)
    (hnext : m'.ctl.nextId = m.ctl.nextId) (hran : m'.ran = m.ran)
    (hstore : m'.ctl.store = m.ctl.store)
    (hdone : ∀ comp ∈ m'.ctl.finished ++ m'.taken, comp ∈ m.ctl.finished ++ m.taken)
    (hacc : (m'.taken.map (·.id) ++ m'.ctl.inFlight.keys).Perm
      (m.taken.map (·.id) ++ m.ctl.inFlight.keys))
    (hline : ∀ p, m'.ctl.pairLine p = m.ctl.pairLine p) : Simulates m' d subs where
  key := htop ▸ hs.key
  nextId := hnext.trans hs.nextId
  ids := hs.ids
  sequence := hs.sequence
  store := hs.store
  ran_store := by rw [hstore, hran]; exact hs.ran_store
  results comp hc := hran ▸ hs.results comp (hdone comp hc)
  accounts := hacc.trans hs.accounts
  lines p := by rw [hran, hline]; exact hs.lines p

theorem flush (hs : Simulates m d subs) (h : m.Inv []) (hopen : m.ctl.closed = false) :
    Simulates { m with ctl := m.ctl.flush } d subs :=
  hs.of_same (top_of_current (Controller.flush_current _))
    (Controller.flush_nextId _) rfl (Controller.flush_store _)
    (fun comp hc => by simpa [Controller.flush_finished hopen] using hc)
    (by simp) (h.pairLine_flush hopen)

/-- The executor running a batch: the batch's requests join the run, at the front of their
pairs' lines, and their completions carry what the store answered. -/
theorem execute (hs : Simulates m d subs) (h : m.Inv []) {i : Nat} {batch : List Request}
    (hb : m.ctl.sent[i]? = some batch) :
    Simulates { m with ctl := m.ctl.execute i, ran := m.ran ++ batch } d subs := by
  have hex := Controller.execute_of_sent hb
  constructor
  case key => rw [hex]; exact hs.key
  case nextId => rw [hex]; exact hs.nextId
  case ids => exact hs.ids
  case sequence => exact hs.sequence
  case store => exact hs.store
  case ran_store =>
    rw [hex]
    show (m.ctl.store.executeBatch batch).2 = (Store.executeBatch {} (m.ran ++ batch)).2
    rw [hs.ran_store, Store.executeBatch_append]
  case results =>
    intro comp hc
    rw [hex] at hc
    simp only [Controller.finished, List.flatten_append, List.flatten_cons, List.flatten_nil,
      List.append_nil, List.mem_append] at hc
    rcases hc with ((hc | hc) | hc) | hc
    · exact (hs.results comp (by simp [Controller.finished, hc])).append batch
    · -- a completion of this batch
      obtain ⟨pre, x, post, hbatch, rfl⟩ := Store.mem_completionsOf_executeBatch hc
      refine ⟨m.ran ++ pre, x, post, by simp [hbatch], ?_⟩
      simp only [Store.executeBatch_append, ← hs.ran_store]
    · exact (hs.results comp (by simp [Controller.finished, hc])).append batch
    · exact (hs.results comp (by simp [hc])).append batch
  case accounts => rw [hex]; exact hs.accounts
  case lines =>
    intro p
    show (m.ran ++ batch).filter (·.pair = p) ++ (m.ctl.execute i).pairLine p = _
    rw [List.filter_append, List.append_assoc, h.pairLine_execute hb p]
    exact hs.lines p

theorem receive (hs : Simulates m d subs) : Simulates { m with ctl := m.ctl.receive } d subs :=
  hs.of_same rfl rfl rfl rfl
    (fun comp hc => by
      simp only [Controller.receive, Controller.finished, List.flatten_nil, List.nil_append,
        List.mem_append] at hc ⊢
      tauto)
    (.refl _) (fun _ => rfl)

/-- Taking a completion moves it from the finished completions to the taken ones, and its
request out of the in-flight table. -/
theorem begin (hs : Simulates m d subs) (h : m.Inv []) {now : Nat} {comp : Completion}
    {f : InFlight τ} {previous : Option RecordContext} {c : Controller τ}
    (hb : m.ctl.beginCompletion now = some (comp, f, previous, c)) :
    Simulates { m with ctl := c, frames := ⟨f.record, previous⟩ :: m.frames,
                       taken := m.taken ++ [comp] } d subs := by
  obtain ⟨pre, rest, hcomp, -, hf, hprev, hc⟩ := Controller.beginCompletion_eq_some hb
  refine hs.of_same ?_ ?_ rfl ?_ ?_ ?_ (h.pairLine_begin hb)
  · -- the record context saved is the one that was current
    show topContext c.current (⟨f.record, previous⟩ :: m.frames) =
      topContext m.ctl.current m.frames
    rw [hprev]; rfl
  · show c.nextId = m.ctl.nextId
    rw [hc]; exact Controller.releasePair_nextId ..
  · show c.store = m.ctl.store
    rw [hc]; exact Controller.releasePair_store ..
  · intro comp' hc'
    have hfin : c.finished = m.ctl.mailbox.flatten ++ rest := by
      rw [hc]; exact Controller.releasePair_finished ..
    simp only [hfin, List.mem_append, List.mem_singleton] at hc'
    simp only [Controller.finished, hcomp, List.mem_append, List.mem_cons]
    rcases hc' with (hc' | hc') | hc' | rfl
    · exact .inl (.inl hc')
    · exact .inl (.inr (.inr (.inr hc')))
    · exact .inr hc'
    · exact .inl (.inr (.inr (.inl rfl)))
  · -- the completing request leaves the in-flight table
    have hkeys : m.ctl.inFlight.keys.Perm (comp.id :: (m.ctl.inFlight.erase comp.id).keys) :=
      (Table.perm_cons_erase h.inFlight_keys hf).map Prod.fst
    have hcf : c.inFlight = m.ctl.inFlight.erase comp.id := by
      rw [hc]; exact Controller.releasePair_inFlight ..
    show ((m.taken ++ [comp]).map (·.id) ++ c.inFlight.keys).Perm _
    rw [hcf, List.map_append, List.append_assoc]
    exact hkeys.symm.append_left _

/-- Ending a completion restores the record context it saved. -/
theorem finish (hs : Simulates m d subs) (h : m.Inv []) {fr : Frame} {rest : List Frame}
    (hfr : m.frames = fr :: rest) (now : Nat) :
    Simulates { m with ctl := m.ctl.endCompletion now fr.record fr.previous, frames := rest }
      d subs := by
  obtain ⟨o, qs, a, s, heq⟩ := Controller.endCompletion_eq_with m.ctl now fr.record fr.previous
  refine hs.of_same ?_ ?_ rfl ?_ ?_ ?_ (h.pairLine_finish hfr now)
  · show topContext (m.ctl.endCompletion now fr.record fr.previous).current rest =
      topContext m.ctl.current m.frames
    rw [heq, hfr]; rfl
  · show (m.ctl.endCompletion now fr.record fr.previous).nextId = m.ctl.nextId
    rw [heq]
  · show (m.ctl.endCompletion now fr.record fr.previous).store = m.ctl.store
    rw [heq]
  · intro comp hc
    rw [heq] at hc
    exact hc
  · show (m.taken.map (·.id) ++
      (m.ctl.endCompletion now fr.record fr.previous).inFlight.keys).Perm _
    rw [heq]

theorem nestedKey (hs : Simulates m d subs) (hfr : m.frames ≠ []) (key : Nat) :
    Simulates { m with ctl := m.ctl.setCurrentKey key } d subs :=
  hs.of_same (top_of_frames_ne_nil hfr _) rfl rfl rfl (fun _ hc => hc) (.refl _)
    (fun _ => rfl)

/-- The step lemma for what happens between two operations. -/
theorem internal (hs : Simulates m d subs) (h : m.Inv []) (hopen : m.ctl.closed = false)
    (hi : Internal m m') :
    Simulates m' d subs := by
  cases hi with
  | flush => exact hs.flush h hopen
  | execute i batch hb => exact hs.execute h hb
  | receive => exact hs.receive
  | begin now comp f previous c hb => exact hs.begin h hb
  | finish now fr rest hfr => exact hs.finish h hfr now
  | nestedKey key hfr => exact hs.nestedKey hfr key

/-- Starting a record at the top level makes its key current on both sides. -/
theorem setKey (hs : Simulates m d subs) (hfr : m.frames = []) (key : Nat) :
    Simulates { m with ctl := m.ctl.setCurrentKey key } (d.perform (.setKey key)).2 subs :=
  { hs with
    key := by rw [top_of_frames_nil (m := { m with ctl := m.ctl.setCurrentKey key }) hfr]; rfl }

/-- An accepted submission: the direct handler runs the same request, which joins the end of
its pair's line. -/
theorem submit (hs : Simulates m d subs) (h : m.Inv []) (hpo : m.ParkedOrder)
    (hfr : m.frames = []) (hopen : m.ctl.closed = false) {now : Nat} {state : String}
    {kind : StateKind} {rt : RequestType} {ns : Bytes} {payload : Payload} {promise : τ}
    {c : Controller τ}
    (hv : rt.validate state kind payload = .ok ())
    (hsub : m.ctl.submit now state kind rt ns payload promise = .ok c) :
    ∃ r, Simulates { m with ctl := c } (d.perform (.submit state kind rt ns payload)).2
        (subs ++ [r]) ∧
      List.Forall₂ (AnswerMatch (subs ++ [r])) [.ok m.ctl.nextId]
        (d.perform (.submit state kind rt ns payload)).1 := by
  obtain ⟨ctx, hctx, hcur, -, hnext, hfl, hstore, hfin⟩ := Controller.submit_fields hopen hsub
  obtain ⟨ctx', hctx', hline⟩ := h.pairLine_submit hpo hfr hopen hsub
  rw [hctx, Option.some.injEq] at hctx'
  subst hctx'
  have hkey : d.current = some ctx.key := by
    rw [← hs.key, top_of_frames_nil hfr, hctx]; rfl
  -- the new request's id is fresh
  have hfresh : m.ctl.inFlight.get? m.ctl.nextId = none := by
    cases hg : m.ctl.inFlight.get? m.ctl.nextId with
    | none => rfl
    | some f => exact absurd (h.entry _ f hg).1 (Nat.lt_irrefl _)
  rw [Direct.perform_keyed hv hkey, ← hs.nextId]
  refine ⟨m.ctl.nextRequest ctx state kind rt ns payload, ?_, ?_⟩
  · constructor
    case key =>
      rw [top_of_frames_nil (m := { m with ctl := c }) hfr]
      show c.current.map (·.key) = d.current
      rw [hcur, hctx, hkey]; rfl
    case nextId => exact hnext
    case ids =>
      simp only [List.map_append, List.map_cons, List.map_nil, Controller.nextRequest_id, hs.ids,
        hs.nextId, List.range_succ]
    case sequence =>
      intro x hx
      rcases List.mem_append.mp hx with hx | hx
      · exact hs.sequence x hx
      · rw [List.mem_singleton.mp hx]; rfl
    case store =>
      show (d.store.execute (m.ctl.nextRequest ctx state kind rt ns payload)).2 = _
      rw [hs.store, Store.executeBatch_append]
      rfl
    case ran_store => exact hstore.trans hs.ran_store
    case results =>
      intro comp hc
      exact hs.results comp (by simpa [hfin] using hc)
    case accounts =>
      -- the new id joins the in-flight table
      have hkeys : c.inFlight.keys.Perm (m.ctl.nextId :: m.ctl.inFlight.keys) := by
        rw [hfl]
        have := (Table.set_perm_cons_erase h.inFlight_keys m.ctl.nextId
          (⟨ctx.record, ctx.key, state, m.ctl.nextId, promise⟩ : InFlight τ)).map Prod.fst
        rwa [Table.erase_eq_self hfresh] at this
      show (m.taken.map (·.id) ++ c.inFlight.keys).Perm _
      calc (m.taken.map (·.id) ++ c.inFlight.keys)
          _ ~ m.taken.map (·.id) ++ m.ctl.nextId :: m.ctl.inFlight.keys := hkeys.append_left _
          _ ~ m.ctl.nextId :: (m.taken.map (·.id) ++ m.ctl.inFlight.keys) := List.perm_middle
          _ ~ m.ctl.nextId :: subs.map (·.id) := hs.accounts.cons _
          _ ~ subs.map (·.id) ++ [m.ctl.nextId] := (List.perm_append_singleton _ _).symm
          _ = (subs ++ [m.ctl.nextRequest ctx state kind rt ns payload]).map (·.id) := by simp
    case lines =>
      intro p
      show m.ran.filter (·.pair = p) ++ c.pairLine p = _
      rw [hline p, ← List.append_assoc, hs.lines p, List.filter_append]
  · refine .cons ⟨subs, m.ctl.nextRequest ctx state kind rt ns payload, [], rfl, rfl, ?_⟩ .nil
    rw [hs.store]
    rfl

end Simulates

/-! ## Every program run -/

namespace ProgramRun

variable {cfg : Config} {ops : List Op} {m : Machine τ} {answers : List (Except StateError Nat)}

/-- The run lemma: along every program run the machine simulates the direct handler that has
run the same program, and the answers match. -/
theorem simulates (hrun : ProgramRun cfg ops m answers) :
    ∃ subs, Simulates m (Direct.runProgram {} ops).2 subs ∧
      List.Forall₂ (AnswerMatch subs) answers (Direct.runProgram {} ops).1 := by
  induction hrun with
  | start => exact ⟨[], Simulates.start cfg, .nil⟩
  | internal hprev hi ih =>
    obtain ⟨subs, hs, ha⟩ := ih
    exact ⟨subs, hs.internal hprev.orderly.reachable.inv hprev.unclosed hi, ha⟩
  | setKey key _ hfr ih =>
    obtain ⟨subs, hs, ha⟩ := ih
    rw [Direct.runProgram_append]
    exact ⟨subs, hs.setKey hfr key, by simpa [Direct.perform] using ha⟩
  | invalid state kind rt ns payload _ _ hv ih =>
    obtain ⟨subs, hs, ha⟩ := ih
    rw [Direct.runProgram_append, Direct.perform_invalid hv]
    exact ⟨subs, hs, List.rel_append ha (.cons rfl .nil)⟩
  | rejected now state kind rt ns payload promise hprev hfr hv hsub ih =>
    obtain ⟨subs, hs, ha⟩ := ih
    obtain ⟨hcur, rfl⟩ := Controller.submit_eq_error hprev.unclosed hsub
    -- with no current key at the top level, the direct handler has none either
    have hk := hs.key
    rw [Machine.top_of_frames_nil hfr, hcur] at hk
    rw [Direct.runProgram_append, Direct.perform_unkeyed hv hk.symm]
    exact ⟨subs, hs, List.rel_append ha (.cons rfl .nil)⟩
  | submit now state kind rt ns payload promise hprev hfr hv hsub ih =>
    obtain ⟨subs, hs, ha⟩ := ih
    have hm := hprev.orderly
    obtain ⟨r, hs', ha'⟩ := hs.submit hm.reachable.inv hm.parkedOrder hfr hprev.unclosed hv hsub
    rw [Direct.runProgram_append]
    exact ⟨subs ++ [r], hs', List.rel_append (ha.imp fun _ _ h => h.append [r]) ha'⟩

end ProgramRun

/-! ## Draining -/

namespace Simulates

variable {m : Machine τ} {d : Direct} {subs : List Request}

theorem ids_nodup (hs : Simulates m d subs) : (subs.map (·.id)).Nodup :=
  hs.ids ▸ List.nodup_range

/-- Once nothing is in flight, each pair's requests have all run, in the order accepted. -/
theorem ran_filter (hs : Simulates m d subs) (h : m.Inv []) (hd : m.ctl.inFlight = [])
    (p : Pair) : m.ran.filter (·.pair = p) = subs.filter (·.pair = p) := by
  have hline := hs.lines p
  rwa [h.pairLine_eq_nil hd p, List.append_nil] at hline

/-- Once nothing is in flight, the taken completions carry the accepted ids, each once. -/
theorem taken_ids_perm (hs : Simulates m d subs) (hd : m.ctl.inFlight = []) :
    (m.taken.map (·.id)).Perm (subs.map (·.id)) := by
  simpa [hd, Table.keys] using hs.accounts

/-- Once nothing is in flight, every request that ran was accepted. -/
theorem mem_of_ran (hs : Simulates m d subs) (h : m.Inv []) (hd : m.ctl.inFlight = [])
    {x : Request} (hx : x ∈ m.ran) : x ∈ subs := by
  have hin : x ∈ m.ran.filter (·.pair = x.pair) := List.mem_filter.mpr ⟨hx, by simp⟩
  rw [hs.ran_filter h hd] at hin
  exact List.mem_of_mem_filter hin

/-- Once nothing is in flight, the requests of a request's pair that ran before it are those
accepted before it. -/
theorem before_eq (hs : Simulates m d subs) (h : m.Inv []) (hd : m.ctl.inFlight = [])
    {pre' post' pre post : List Request} {x : Request} (hran : m.ran = pre' ++ x :: post')
    (hsubs : subs = pre ++ x :: post) :
    pre'.filter (·.pair = x.pair) = pre.filter (·.pair = x.pair) := by
  have heq := hs.ran_filter h hd x.pair
  rw [hran, hsubs, List.filter_append, List.filter_append, List.filter_cons_of_pos (by simp),
    List.filter_cons_of_pos (by simp)] at heq
  -- the accepted requests are distinct, so the request stands once in its pair's order
  have hnd : (subs.filter (·.pair = x.pair)).Nodup := (hs.ids_nodup.of_map _).filter _
  rw [hsubs, List.filter_append, List.filter_cons_of_pos (by simp), ← heq] at hnd
  exact prefix_eq_of_nodup heq hnd

/-- Once nothing is in flight, exactly one completion of each accepted request has been taken,
carrying the answer the direct handler gave it. -/
theorem taken_result (hs : Simulates m d subs) (h : m.Inv []) (hd : m.ctl.inFlight = [])
    {pre post : List Request} {x : Request} (hsubs : subs = pre ++ x :: post) :
    (m.taken.filter (·.id = x.id)).map (·.result) =
      [((Store.executeBatch {} pre).2.execute x).1] := by
  have hperm := hs.taken_ids_perm hd
  -- one taken completion carries the request's id, and only one
  obtain ⟨comp, hcomp, hid⟩ : ∃ comp ∈ m.taken, comp.id = x.id := by
    have hx : x.id ∈ m.taken.map (·.id) :=
      hperm.mem_iff.mpr (List.mem_map_of_mem (by simp [hsubs]))
    simpa using hx
  have hone : m.taken.filter (·.id = x.id) = [comp] := by
    rw [← hid]
    exact filter_eq_singleton_of_nodup_map (hperm.nodup_iff.mpr hs.ids_nodup) hcomp
  -- it completes a request that ran, hence was accepted: the request itself
  obtain ⟨pre', x', post', hran, rfl⟩ := hs.results comp (List.mem_append_right _ hcomp)
  obtain rfl : x' = x := List.inj_on_of_nodup_map hs.ids_nodup
    (hs.mem_of_ran h hd (by simp [hran])) (by simp [hsubs]) hid
  rw [hone, List.map_singleton, Store.execute_congr_pair _ x' (hs.before_eq h hd hran hsubs)]

end Simulates

open Machine

/-- Once nothing is in flight, the answers, the store and the order in which each pair's requests
ran are those of the direct handler. -/
theorem ProgramRun.refines_of_drained {cfg : Config} {ops : List Op} {m : Machine τ}
    {answers : List (Except StateError Nat)} (hrun : ProgramRun cfg ops m answers)
    (hdrained : m.ctl.inFlight = []) :
    List.Forall₂ (fun a r => (∃ e, a = .error e ∧ r = .error e) ∨
        ∃ id res, a = .ok id ∧ r = .ok res ∧
          (m.taken.filter (·.id = id)).map (·.result) = [res])
      answers (Direct.runProgram {} ops).1 ∧
    (∀ a, m.ctl.store.get? a = (Direct.runProgram {} ops).2.store.get? a) ∧
    ∀ p, ((m.ran.filter (·.pair = p)).map (·.sequence)).Pairwise (· < ·) := by
  obtain ⟨subs, hs, hanswers⟩ := hrun.simulates
  have h := hrun.orderly.reachable.inv
  refine ⟨hanswers.imp fun a r ha => ?_, fun a => ?_, fun p => ?_⟩
  · -- the same error, or the taken completion of the accepted request
    cases a with
    | error e => exact .inl ⟨e, rfl, ha⟩
    | ok id =>
      obtain ⟨pre, x, post, hsubs, rfl, rfl⟩ := ha
      exact .inr ⟨x.id, _, rfl, rfl, hs.taken_result h hdrained hsubs⟩
  · -- both stores ran the same requests at every pair, in the same order
    rw [hs.ran_store, hs.store]
    exact Store.get?_congr_pair {} a (hs.ran_filter h hdrained _)
  · -- a pair's requests ran in the order accepted, which is the order of their ids
    rw [hs.ran_filter h hdrained p]
    have hseq : subs.map (·.sequence) = List.range (Direct.runProgram {} ops).2.nextId := by
      rw [← hs.ids]
      exact List.map_congr_left hs.sequence
    exact List.Pairwise.sublist (List.filter_sublist.map _) (hseq ▸ List.pairwise_lt_range)

/-- Taking a program refines running it at once. Run a program of the processing thread whose
continuations submit nothing on a fresh controller, interleaved in any way with flushes, batches
run by the executor in any order, and completions taken and ended. Some further such moves
drain it. Once nothing is in flight, the answers of its submissions match those of the direct
handler running the program on a fresh store: the same synchronous errors, and for every
accepted request exactly one taken completion, carrying the result the direct handler returns.
The two stores hold the same contents, and the store ran each (key, state) pair's requests in
increasing sequence order. -/
theorem program_refines_direct {cfg : Config} {ops : List Op} {m : Machine τ}
    {answers : List (Except StateError Nat)} (hrun : ProgramRun cfg ops m answers) :
    (∃ mvs m', mvs.all Move.isInternal = true ∧ m.run? mvs = some m' ∧
      m'.ctl.inFlight = []) ∧
    (m.ctl.inFlight = [] →
      List.Forall₂ (fun a r => (∃ e, a = .error e ∧ r = .error e) ∨
          ∃ id res, a = .ok id ∧ r = .ok res ∧
            (m.taken.filter (·.id = id)).map (·.result) = [res])
        answers (Direct.runProgram {} ops).1 ∧
      (∀ a, m.ctl.store.get? a = (Direct.runProgram {} ops).2.store.get? a) ∧
      ∀ p, ((m.ran.filter (·.pair = p)).map (·.sequence)).Pairwise (· < ·)) :=
  ⟨hrun.drains, hrun.refines_of_drained⟩

/-- A program on key 1: write 7 to state "s", then read it back. -/
def Op.writeThenRead : List Op :=
  [.setKey 1, .submit "s" .value .valueUpdate [] (.value [7]),
    .submit "s" .value .valueGet [] .empty]

/-- The controller once it has taken `Op.writeThenRead`: the write is ready, the read waits
behind it. -/
def Machine.writeThenRead : Machine Unit :=
  let m₁ : Machine Unit :=
    { (start {} : Machine Unit) with ctl := (start {} : Machine Unit).ctl.setCurrentKey 1 }
  let m₂ : Machine Unit :=
    { m₁ with
      ctl := (m₁.ctl.submit 0 "s" .value .valueUpdate [] (.value [7]) ()).toOption.getD m₁.ctl }
  { m₂ with ctl := (m₂.ctl.submit 0 "s" .value .valueGet [] .empty ()).toOption.getD m₂.ctl }

/-- Moves that drain it: the write runs and is taken, which makes the read ready; then the read
runs and is taken. -/
def Machine.drainWriteThenRead : List (Move Unit) :=
  [.flush, .execute 0, .receive, .begin 0, .finish 0, .flush, .execute 0, .receive, .begin 0,
    .finish 0]

def Machine.writeThenReadDrained : Machine Unit :=
  (writeThenRead.run? drainWriteThenRead).getD writeThenRead

theorem Machine.programRun_writeThenRead :
    ProgramRun {} Op.writeThenRead Machine.writeThenReadDrained [.ok 0, .ok 1] :=
  ProgramRun.run?
    (.submit 0 "s" .value .valueGet [] .empty ()
      (.submit 0 "s" .value .valueUpdate [] (.value [7]) () (.setKey 1 .start rfl) rfl rfl rfl)
      rfl rfl rfl)
    (show Machine.writeThenRead.run? Machine.drainWriteThenRead =
      some Machine.writeThenReadDrained from rfl) rfl

theorem writeThenRead_refines_direct :
    ProgramRun {} Op.writeThenRead Machine.writeThenReadDrained [.ok 0, .ok 1] ∧
    Machine.writeThenReadDrained.ctl.inFlight = [] ∧
    (∃ mvs m', mvs.all Move.isInternal = true ∧
      Machine.writeThenReadDrained.run? mvs = some m' ∧ m'.ctl.inFlight = []) ∧
    (Machine.writeThenReadDrained.ctl.inFlight = [] →
      List.Forall₂ (fun (a : Except StateError Nat)
          (r : Except StateError (Except StateError Response)) =>
          (∃ e, a = .error e ∧ r = .error e) ∨ ∃ id res, a = .ok id ∧ r = .ok res ∧
            (Machine.writeThenReadDrained.taken.filter (·.id = id)).map (·.result) = [res])
        [.ok 0, .ok 1] (Direct.runProgram {} Op.writeThenRead).1 ∧
      (∀ a, Machine.writeThenReadDrained.ctl.store.get? a =
        (Direct.runProgram {} Op.writeThenRead).2.store.get? a) ∧
      ∀ p, ((Machine.writeThenReadDrained.ran.filter (·.pair = p)).map (·.sequence)).Pairwise
        (· < ·)) :=
  ⟨Machine.programRun_writeThenRead, rfl,
    program_refines_direct Machine.programRun_writeThenRead⟩

end OrderedState
