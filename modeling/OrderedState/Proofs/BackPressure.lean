import OrderedState.Proofs.Interpreter
import OrderedState.Proofs.Custody

/-!
# Back-pressure

The processing thread submits a request only once `makeRoom` has found the controller below its
in-flight limit. While the limit is reached it keeps turning the controller: the completions it
takes run their continuations, and those may make requests of their own, each after the same
wait. A submission enters one request in flight, taking a completion removes one, and nothing
else touches the in-flight table, the next id or the configuration.

`Controller.Paced` is what this keeps: the count is within the limit, and every id in flight is
below the next id, so that a submission, which enters its request under the next id, adds an
entry rather than replacing one. The interpreter keeps it at every depth of its recursion
(`Paced.callInvariant`, through `CallInvariant`), so every world the thread reaches is within
the limit, and there every accepted submission adds exactly one request
(`in_flight_within_limit`).
-/

namespace OrderedState

namespace Controller

variable {τ : Type} {c c' : Controller τ}

/-- The controller is within its in-flight limit, and every request in flight has an id below the
next one. -/
structure Paced (c : Controller τ) : Prop where
  within : c.inFlightCount ≤ c.config.maxInFlight
  below : ∀ id ∈ c.inFlight.keys, id < c.nextId

/-- With every id in flight below the next one, the next id is free. -/
theorem nextId_free (h : ∀ id ∈ c.inFlight.keys, id < c.nextId) :
    c.inFlight.get? c.nextId = none :=
  Table.get?_eq_none_iff.mpr fun hk => Nat.lt_irrefl _ (h _ hk)

theorem Paced.nextId_free (h : c.Paced) : c.inFlight.get? c.nextId = none :=
  Controller.nextId_free h.below

/-- Keeping pace depends only on the in-flight table, the next id and the configuration. -/
theorem Paced.of_eq (h : c.Paced) (hi : c'.inFlight = c.inFlight) (hn : c'.nextId = c.nextId)
    (hc : c'.config = c.config) : c'.Paced where
  within := by simpa only [inFlightCount, hi, hc] using h.within
  below := by simpa only [hi, hn] using h.below

/-- A change of the controller that leaves its in-flight table, its next id and its configuration
as they were. -/
def Steady (f : Controller τ → Controller τ) : Prop :=
  ∀ c, (f c).inFlight = c.inFlight ∧ (f c).nextId = c.nextId ∧ (f c).config = c.config

theorem Paced.steady {f : Controller τ → Controller τ} (h : c.Paced) (hf : Steady f) :
    (f c).Paced ∧ (f c).config = c.config :=
  ⟨h.of_eq (hf c).1 (hf c).2.1 (hf c).2.2, (hf c).2.2⟩

/-! ## What leaves the in-flight table alone -/

theorem steady_flush : Steady (Controller.flush (τ := τ)) := fun c => by
  obtain ⟨_, _, h⟩ := flush_eq_with c
  rw [h]
  exact ⟨rfl, rfl, rfl⟩

/-- Running batches changes only the store and the mailbox. -/
theorem foldl_runBatch_eq_with (c : Controller τ) (bs : List (List Request)) :
    ∃ store mailbox, bs.foldl runBatch c = { c with store, mailbox } := by
  induction bs generalizing c with
  | nil => exact ⟨c.store, c.mailbox, rfl⟩
  | cons b bs ih =>
    obtain ⟨store, mailbox, h⟩ := ih (c.runBatch b)
    exact ⟨store, mailbox, by rw [List.foldl_cons, h]; rfl⟩

/-- Running batches by their positions changes only the batches, the mailbox and the store. -/
theorem foldl_execute_eq_with (c : Controller τ) (is : List Nat) :
    ∃ sent mailbox store, is.foldl execute c = { c with sent, mailbox, store } := by
  induction is generalizing c with
  | nil => exact ⟨c.sent, c.mailbox, c.store, rfl⟩
  | cons i is ih =>
    obtain ⟨sent₁, mailbox₁, store₁, h₁⟩ := execute_eq_with c i
    obtain ⟨sent, mailbox, store, h⟩ := ih (c.execute i)
    exact ⟨sent, mailbox, store, by rw [List.foldl_cons, h, h₁]⟩

/-- What a turn collects changes only the batches, the mailbox, the completions collected, the
store and the executor's pace. -/
theorem collect_eq_with (c : Controller τ) :
    ∃ sent mailbox completed store pace,
      c.collect = { c with sent, mailbox, completed, store, pace } := by
  unfold collect
  split
  · obtain ⟨store, mailbox, h⟩ := foldl_runBatch_eq_with { c with sent := [] } c.sent
    exact ⟨[], [], _, store, c.pace, by rw [executeAll, h, receive]⟩
  · next rest _ =>
    obtain ⟨sent, mailbox, store, h⟩ := foldl_execute_eq_with { c with pace := rest } _
    exact ⟨sent, [], _, store, rest, by rw [h, receive]⟩

theorem steady_collect : Steady (Controller.collect (τ := τ)) := fun c => by
  obtain ⟨_, _, _, _, _, h⟩ := collect_eq_with c
  rw [h]
  exact ⟨rfl, rfl, rfl⟩

theorem steady_execute (i : Nat) : Steady fun c : Controller τ => c.execute i := fun c => by
  obtain ⟨_, _, _, h⟩ := execute_eq_with c i
  dsimp only
  rw [h]
  exact ⟨rfl, rfl, rfl⟩

theorem steady_receive : Steady (Controller.receive (τ := τ)) := fun _ => ⟨rfl, rfl, rfl⟩

theorem steady_setCurrentKey (key : Nat) : Steady fun c : Controller τ => c.setCurrentKey key :=
  fun _ => ⟨rfl, rfl, rfl⟩

theorem steady_shut : Steady (Controller.shut (τ := τ)) := fun _ => ⟨rfl, rfl, rfl⟩

theorem steady_endCompletion (now record : Nat) (previous : Option RecordContext) :
    Steady fun c : Controller τ => c.endCompletion now record previous := fun c => by
  obtain ⟨_, _, _, _, h⟩ := endCompletion_eq_with c now record previous
  dsimp only
  rw [h]
  exact ⟨rfl, rfl, rfl⟩

/-! ## Submitting and taking a completion -/

/-- An accepted submission keeps the configuration. -/
theorem submit_config {now : Nat} {state : String} {kind : StateKind} {rt : RequestType}
    {ns : Bytes} {payload : Payload} {promise : τ}
    (hs : c.submit now state kind rt ns payload promise = .ok c') : c'.config = c.config := by
  obtain ⟨ctx, -, hc⟩ := submit_eq_ok hs
  obtain ⟨o, qs, a, s, heq⟩ := claim_eq_with
    ({ c with
        nextId := c.nextId + 1,
        inFlight := c.inFlight.set c.nextId ⟨ctx.record, ctx.key, state, c.nextId, promise⟩ } :
      Controller τ) now ctx.record (c.nextRequest ctx state kind rt ns payload)
  simp only [heq] at hc
  rcases hc with rfl | rfl
  · rfl
  · exact ((steady_flush _).2.2).trans rfl

/-- A submission the controller accepts adds its request to the in-flight table under the next
id: when that id is free, exactly one entry more. -/
theorem submit_adds {now : Nat} {state : String} {kind : StateKind} {rt : RequestType}
    {ns : Bytes} {payload : Payload} {promise : τ} (hfree : c.inFlight.get? c.nextId = none)
    (hs : c.submit now state kind rt ns payload promise = .ok c') :
    c'.nextId = c.nextId + 1 ∧ ∃ record key,
      c'.inFlight = c.inFlight ++ [(c.nextId, ⟨record, key, state, c.nextId, promise⟩)] := by
  obtain ⟨ctx, -, -, -, hn, hf, -, -⟩ := submit_fields (submit_open hs) hs
  exact ⟨hn, ctx.record, ctx.key, hf.trans (Table.set_eq_append _ hfree)⟩

/-- An accepted submission keeps every id in flight below the next one. -/
theorem submit_below {now : Nat} {state : String} {kind : StateKind} {rt : RequestType}
    {ns : Bytes} {payload : Payload} {promise : τ} (hbelow : ∀ id ∈ c.inFlight.keys, id < c.nextId)
    (hs : c.submit now state kind rt ns payload promise = .ok c') :
    ∀ id ∈ c'.inFlight.keys, id < c'.nextId := by
  obtain ⟨hn, record, key, hf⟩ := submit_adds (nextId_free hbelow) hs
  intro id hid
  simp only [hf, Table.keys_append, Table.keys_cons, Table.keys_nil, List.mem_append,
    List.mem_singleton] at hid
  rw [hn]
  rcases hid with hid | rfl
  · exact Nat.lt_succ_of_lt (hbelow id hid)
  · exact Nat.lt_succ_self _

/-- An accepted submission keeps the ids in flight distinct: the new one is above them all. -/
theorem submit_keys_nodup {now : Nat} {state : String} {kind : StateKind} {rt : RequestType}
    {ns : Bytes} {payload : Payload} {promise : τ} (hkeys : c.inFlight.keys.Nodup)
    (hbelow : ∀ id ∈ c.inFlight.keys, id < c.nextId)
    (hs : c.submit now state kind rt ns payload promise = .ok c') : c'.inFlight.keys.Nodup := by
  obtain ⟨-, record, key, hf⟩ := submit_adds (nextId_free hbelow) hs
  simp only [hf, Table.keys_append, Table.keys_cons, Table.keys_nil]
  refine List.nodup_append.mpr ⟨hkeys, by simp, ?_⟩
  intro a ha b hb hab
  rw [List.mem_singleton] at hb
  have := hbelow a ha
  omega

/-- Below the limit, an accepted submission stays within it. -/
theorem Paced.submit (h : c.Paced) (hroom : c.full = false) {now : Nat} {state : String}
    {kind : StateKind} {rt : RequestType} {ns : Bytes} {payload : Payload} {promise : τ}
    (hs : c.submit now state kind rt ns payload promise = .ok c') :
    c'.Paced ∧ c'.config = c.config := by
  obtain ⟨-, record, key, hf⟩ := submit_adds h.nextId_free hs
  have hc := submit_config hs
  have hlt : c.inFlightCount < c.config.maxInFlight := by simpa [full] using hroom
  refine ⟨⟨?_, submit_below h.below hs⟩, hc⟩
  simp only [inFlightCount, hf, List.length_append, List.length_singleton, hc]
  exact hlt

theorem Paced.erase (h : c.Paced) (id : Nat) :
    ({ c with inFlight := c.inFlight.erase id } : Controller τ).Paced := by
  refine ⟨?_, fun j hj => h.below j ((Table.keys_erase_sublist _ id).subset hj)⟩
  exact Nat.le_trans (List.length_filter_le _ _) h.within

/-- Taking a completion removes its request from the in-flight table and nothing more. -/
theorem Paced.begin (h : c.Paced) {now : Nat} {comp : Completion} {f : InFlight τ}
    {previous : Option RecordContext} (hb : c.beginCompletion now = some (comp, f, previous, c')) :
    c'.Paced ∧ c'.config = c.config := by
  obtain ⟨-, rest, -, -, -, -, rfl⟩ := beginCompletion_eq_some hb
  obtain ⟨_, _, _, hr⟩ := releasePair_eq
    ({ c with completed := rest, inFlight := c.inFlight.erase comp.id } : Controller τ)
    now f.key f.state
  rw [hr]
  exact ⟨(h.erase comp.id).of_eq rfl rfl rfl, rfl⟩

end Controller

/-! ## The processing thread keeps pace -/

namespace World

variable {w w' : World} {cfg : Config}

/-- The world's handler is a controller with configuration `cfg`, and it keeps pace. -/
def Paced (cfg : Config) (w : World) : Prop :=
  ∃ c, w.handler = .controller c ∧ c.config = cfg ∧ c.Paced

theorem Paced.of_handler (h : w.Paced cfg) (hh : w'.handler = w.handler) : w'.Paced cfg := by
  obtain ⟨c, hc, hcfg, hp⟩ := h
  exact ⟨c, hh.trans hc, hcfg, hp⟩

theorem Paced.onController (h : w.Paced cfg) {f : Controller Ticket → Controller Ticket}
    (hf : Controller.Steady f) : (w.onController f).Paced cfg := by
  obtain ⟨c, hc, rfl, hp⟩ := h
  obtain ⟨hp', hcfg⟩ := hp.steady hf
  exact ⟨f c, by simp [World.onController, hc], hcfg, hp'⟩

theorem Paced.within (h : w.Paced cfg) : w.inFlightCount ≤ cfg.maxInFlight := by
  obtain ⟨c, hc, rfl, hp⟩ := h
  simpa [World.inFlightCount, hc] using hp.within

theorem gatherResult_handler (g j : Nat) (r : Outcome) :
    (w.gatherResult g j r).2.handler = w.handler := by
  unfold gatherResult
  split
  · rfl
  · dsimp only
    split <;> rfl

theorem Paced.submitTo (h : w.Paced cfg) {c : Controller Ticket} (hc : w.handler = .controller c)
    (hroom : w.full = false) (h' : Handle) (ns : Bytes) (op : Operation) :
    (w.submitTo c h' ns op).2.Paced cfg := by
  obtain ⟨c₀, hc₀, rfl, hp⟩ := h
  obtain rfl : c₀ = c := Handler.controller.inj (hc₀.symm.trans hc)
  have hfull : c₀.full = false := by simpa [World.full, hc] using hroom
  unfold submitTo
  dsimp only
  split
  · exact ⟨c₀, hc, rfl, hp⟩
  · rename_i c' hs
    obtain ⟨hp', hcfg⟩ := hp.submit hfull hs
    exact ⟨c', rfl, hcfg, hp'⟩

theorem Paced.beginCompletion (h : w.Paced cfg) {res : Except StateError Response}
    {ticket : Ticket} {record : Nat} {previous : Option RecordContext}
    (hb : w.beginCompletion = (some (res, ticket, record, previous), w')) : w'.Paced cfg := by
  obtain ⟨c, hc, rfl, hp⟩ := h
  unfold World.beginCompletion at hb
  rw [hc] at hb
  dsimp only at hb
  split at hb
  · cases hb
  · rename_i comp f prev c' hcb
    cases hb
    obtain ⟨hp', hcfg⟩ := hp.begin hcb
    exact ⟨c', rfl, hcfg, hp'⟩

end World

/-- Keeping pace is kept by every step of the interpreter, whatever continuations the thread
holds. -/
theorem Paced.threadInvariant (cfg : Config) :
    ThreadInvariant (fun _ w => w.Paced cfg) fun _ _ _ => True where
  settle _ h _ _ := h.of_handler rfl
  twice h _ _ := h.of_handler rfl
  append h _ := h.of_handler rfl
  drop h := h
  target _ _ := trivial
  pair _ h := h.of_handler rfl
  compose h := h
  log _ h := h.of_handler rfl
  gather _ h := ⟨h.of_handler (World.gatherResult_handler _ _ _), fun _ _ _ => trivial⟩
  flush h := h.onController Controller.steady_flush
  collect h := h.onController Controller.steady_collect
  submit h' ns op h hc hroom := h.submitTo hc hroom h' ns op
  direct _ _ _ h hd := by
    obtain ⟨c, hc, -⟩ := h
    cases hd.symm.trans hc
  begin h hb := ⟨h.beginCompletion hb, trivial⟩
  finish _ _ h := h.onController (Controller.steady_endCompletion _ _ _)

/-- Keeping pace is kept by every step of the processing thread, whatever promises it holds. -/
theorem Paced.callInvariant (cfg : Config) :
    CallInvariant (fun _ _ w => w.Paced cfg) fun _ _ _ _ => True where
  thread _ := Paced.threadInvariant cfg
  setKey key h := h.onController (Controller.steady_setCurrentKey key)
  execute i h := h.onController (Controller.steady_execute i)
  receive h := h.onController Controller.steady_receive
  shut h := h.onController Controller.steady_shut
  pace _ h := h.onController fun _ => ⟨rfl, rfl, rfl⟩
  tick _ h := h.of_handler rfl
  ready _ h := h.of_handler rfl
  derive _ h := h.of_handler rfl
  log _ _ _ h := h
  combine _ _ h := h.of_handler rfl
  promise h := h.of_handler rfl
  resolve h _ := ⟨h, trivial⟩

/-- Back-pressure. For every configuration, in every world the processing thread reaches from a
fresh controller — through any calls at any budgets, with continuations that make requests of
their own while the thread waits for room — the requests in flight are within the limit, and
every submission the controller accepts there enters exactly one request in flight: under the
next id, which no request in flight holds, with the promise it was given. -/
theorem in_flight_within_limit {cfg : Config} {ps : List Nat} {w : World}
    (hw : Reaches cfg (ps, w)) :
    w.inFlightCount ≤ cfg.maxInFlight ∧
    ∀ c, w.handler = .controller c →
      ∀ now state kind rt ns payload promise c',
        c.submit now state kind rt ns payload promise = .ok c' →
        c.inFlight.get? c.nextId = none ∧
        ∃ record key,
          c'.inFlight = c.inFlight ++ [(c.nextId, ⟨record, key, state, c.nextId, promise⟩)] := by
  have hp : w.Paced cfg :=
    (Paced.callInvariant cfg).reaches ⟨_, rfl, rfl, ⟨Nat.zero_le _, by simp⟩⟩ hw
  refine ⟨hp.within, fun c hc now state kind rt ns payload promise c' hs => ?_⟩
  obtain ⟨c₀, hc₀, -, hpc⟩ := hp
  obtain rfl : c₀ = c := Handler.controller.inj (hc₀.symm.trans hc)
  exact ⟨hpc.nextId_free, (Controller.submit_adds hpc.nextId_free hs).2⟩

/-- Reads of three value states under one record, through a controller limited to two requests
in flight. The second read's submission enters one request in flight, under an id no request
holds, and fills the limit. The third read finds the controller full and turns it until the
first two are done before it is submitted, so the run stays within the limit. -/
theorem three_reads_within_limit :
    let h : String → Handle := fun s => ⟨"v", s, .value, ⟨.i64, .json⟩, ⟨.i64, .json⟩, .void, .void⟩
    let op : Operation := ⟨.valueGet, .empty, .value .valueGet ⟨.i64, .json⟩, false⟩
    let w₁ := ((Call.run 10 (.request (h "s") op)).run
      ((Call.run 0 (.setKey 1)).run (initial { maxInFlight := 2 }).2).2).2
    let w₂ := ((Call.run 10 (.request (h "t") op)).run w₁).2
    let w₃ := ((Call.run 10 (.request (h "u") op)).run w₂).2
    Reaches { maxInFlight := 2 } ([], w₃) ∧
    (∃ c c', w₁.handler = .controller c ∧
      c.submit w₁.clock "t" .value .valueGet [] .empty ⟨w₁.slots.size, op.reply⟩ = .ok c' ∧
      c.inFlight.get? c.nextId = none ∧ c'.inFlight.length = c.inFlight.length + 1) ∧
    w₂.inFlightCount = 2 ∧ w₃.inFlightCount ≤ 2 ∧ w₃.inFlightCount = 1 := by
  intro h op w₁ w₂ w₃
  have hr₁ : Reaches { maxInFlight := 2 } ([], w₁) :=
    (Relation.ReflTransGen.single (Next.call _ _)).tail (Next.call _ _)
  have hr₃ : Reaches { maxInFlight := 2 } ([], w₃) :=
    (hr₁.tail (Next.call _ _)).tail (Next.call _ _)
  -- the controller of the first world accepts the second read's submission
  have hok : w₁.handler.casesOn (motive := fun _ => Bool)
      (fun c => (c.submit w₁.clock "t" .value .valueGet [] .empty ⟨w₁.slots.size, op.reply⟩).isOk)
      (fun _ => false) false = true := by
    decide +kernel
  cases hc : w₁.handler with
  | controller c =>
    rw [hc] at hok
    change (c.submit w₁.clock "t" .value .valueGet [] .empty ⟨w₁.slots.size, op.reply⟩).isOk =
      true at hok
    cases hs : c.submit w₁.clock "t" .value .valueGet [] .empty ⟨w₁.slots.size, op.reply⟩ with
    | error e => rw [hs] at hok; cases hok
    | ok c' =>
      obtain ⟨hfree, _, _, hin⟩ := (in_flight_within_limit hr₁).2 c hc _ _ _ _ _ _ _ c' hs
      exact ⟨hr₃, ⟨c, c', rfl, hs, hfree, by simp [hin]⟩, by decide +kernel,
        (in_flight_within_limit hr₃).1, by decide +kernel⟩
  | direct _ => rw [hc] at hok; cases hok
  | absent => rw [hc] at hok; cases hok

end OrderedState
