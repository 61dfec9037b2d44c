import OrderedState.Controller.PairQueues
import OrderedState.Controller.Ownership
import OrderedState.Config

/-!
# The execution controller

The controller takes requests from the processing thread, keeps them in order per key, batches
them for an executor, and hands each result back under the record that submitted the request.
Its state changes only by the transitions in this module; each is one indivisible step:

* `setCurrentKey` starts a new record for a key;
* `submit` gives a request an id, counts it in flight, passes it through key ownership and the
  pair queues, and flushes the ready buffer when it reaches the batch size or has expired;
* `flush` sends the ready buffer to the executor as one batch;
* `execute` is the executor running one batch it holds, in any order, against the store; its
  completions arrive in the mailbox as one message;
* `receive` collects every message in the mailbox, in arrival order;
* `beginCompletion` takes the next completion: the request leaves the in-flight table, its pair
  issues the next waiting request, and the completing request's record becomes current;
* `endCompletion` restores the previous record and counts the completion against its record,
  which may pass the key on to parked requests.

The request's promise is the controller's `τ`: what the processing thread resolves with the
result when it takes the completion. The clock is an input: transitions that make a request
ready take the time `now`, in milliseconds, and the ready buffer remembers when it last became
non-empty; it has expired once the buffer timeout has passed since then.
-/

namespace OrderedState

/-- The record being processed and its key. -/
structure RecordContext where
  record : Nat
  key : Nat
  deriving DecidableEq, Repr

/-- A request in flight: whose it is, where it runs, and what its result resolves. -/
structure InFlight (τ : Type) where
  record : Nat
  key : Nat
  state : String
  sequence : Nat
  promise : τ

/-- The result of one executed request. -/
structure Completion where
  id : Nat
  result : Except StateError Response

/-- The controller's state. -/
structure Controller (τ : Type) where
  config : Config
  current : Option RecordContext := none
  nextRecord : Nat := 0
  nextId : Nat := 0
  ownership : Ownership := {}
  queues : PairQueues := {}
  /-- Requests ready to be sent, in the order they became ready. -/
  active : List Request := []
  /-- When the ready buffer last became non-empty; nothing while it is empty. -/
  activeSince : Option Nat := none
  inFlight : Table Nat (InFlight τ) := []
  /-- Batches at the executor, in the order they were sent. -/
  sent : List (List Request) := []
  /-- Messages of completions from the executor, not yet collected, in arrival order. -/
  mailbox : List (List Completion) := []
  /-- Completions collected and not yet taken, in order. -/
  completed : List Completion := []
  closed : Bool := false
  store : Store := {}
  /-- How far the executor gets before each of the controller's next turns: the positions,
  among the batches it holds, of those it runs in that order. Once this runs out, it runs every
  batch it holds before each turn. -/
  pace : List (List Nat) := []

namespace Controller

variable {τ : Type}

/-- Starts a new record for `key`; later submissions belong to it. -/
def setCurrentKey (c : Controller τ) (key : Nat) : Controller τ :=
  { c with current := some ⟨c.nextRecord, key⟩, nextRecord := c.nextRecord + 1 }

/-- The key of the record being processed. -/
def currentKey (c : Controller τ) : Option Nat := c.current.map (·.key)

/-- Requests submitted and not yet completed. -/
def inFlightCount (c : Controller τ) : Nat := c.inFlight.length

/-- Ready requests not yet sent to the executor. -/
def bufferedCount (c : Controller τ) : Nat := c.active.length

/-- Requests waiting behind the issued request of their pair. -/
def queuedCount (c : Controller τ) : Nat := c.queues.waitingCount

/-- Requests parked behind an earlier record on their key. -/
def blockedCount (c : Controller τ) : Nat := c.ownership.parkedCount

/-- Whether the controller takes requests: it is open and a key is current. -/
def accepting (c : Controller τ) : Except StateError Unit :=
  if c.closed then .error .closed
  else if c.current.isNone then .error .noCurrentKey
  else .ok ()

/-- Whether a request must wait for capacity before it is submitted. -/
def full (c : Controller τ) : Bool := c.config.maxInFlight ≤ c.inFlightCount

/-- Adds a request to the ready buffer at time `now`. -/
def pushActive (c : Controller τ) (now : Nat) (r : Request) : Controller τ :=
  { c with active := c.active ++ [r],
           activeSince := if c.active.isEmpty then some now else c.activeSince }

/-- Issues a request its record may run: it becomes ready unless its pair is busy. -/
def issue (c : Controller τ) (now : Nat) (r : Request) : Controller τ :=
  let (queues, ready) := c.queues.enqueue r
  let c := { c with queues }
  match ready with
  | some r => c.pushActive now r
  | none => c

/-- Admits a request of a record: it is issued when the record owns the key, parked otherwise. -/
def claim (c : Controller τ) (now : Nat) (record : Nat) (r : Request) : Controller τ :=
  let (ownership, owned) := c.ownership.claim record r
  let c := { c with ownership }
  match owned with
  | some r => c.issue now r
  | none => c

/-- Whether the ready buffer has expired at time `now`: the buffer timeout has passed since it
last became non-empty. -/
def expired (c : Controller τ) (now : Nat) : Bool :=
  match c.activeSince with
  | some t => decide (c.config.bufferTimeoutMs ≤ now - t)
  | none => false

/-- Sends a batch to the executor. Once the controller is closed the executor is stopped, and
every request of the batch completes at once with `Closed`. -/
def dispatch (c : Controller τ) (batch : List Request) : Controller τ :=
  if batch.isEmpty then c
  else if c.closed then
    { c with completed := c.completed ++ batch.map fun r => ⟨r.id, .error .closed⟩ }
  else { c with sent := c.sent ++ [batch] }

/-- Sends the ready buffer as one batch. -/
def flush (c : Controller τ) : Controller τ :=
  { c with active := [], activeSince := none }.dispatch c.active

/-- Submits, at time `now`, a request of the current record on `state`, resolving `promise` when
it completes. It gets the next id, which is also its sequence number. -/
def submit (c : Controller τ) (now : Nat) (state : String) (kind : StateKind) (rt : RequestType)
    (ns : Bytes) (payload : Payload) (promise : τ) : Except StateError (Controller τ) :=
  if c.closed then .error .closed
  else
    match c.current with
    | none => .error .noCurrentKey
    | some ctx =>
      let id := c.nextId
      let r : Request := { id, key := ctx.key, state, kind, ns, requestType := rt, payload,
                           sequence := id }
      let c := { c with nextId := id + 1,
                        inFlight := c.inFlight.set id ⟨ctx.record, ctx.key, state, id, promise⟩ }
      let c := c.claim now ctx.record r
      if c.config.batchSize ≤ c.active.length then .ok c.flush
      else if c.expired now then .ok c.flush
      else .ok c

/-- Completions of a batch: each request with its result, in batch order. -/
def completionsOf (batch : List Request) (results : List (Except StateError Response)) :
    List Completion :=
  (batch.zip results).map fun (r, res) => ⟨r.id, res⟩

/-- Runs a batch against the store; its completions arrive in the mailbox as one message. -/
def runBatch (c : Controller τ) (batch : List Request) : Controller τ :=
  let (results, store) := c.store.executeBatch batch
  { c with store, mailbox := c.mailbox ++ [completionsOf batch results] }

/-- The executor runs the `i`-th batch it holds. -/
def execute (c : Controller τ) (i : Nat) : Controller τ :=
  match c.sent[i]? with
  | some batch => { c with sent := c.sent.eraseIdx i }.runBatch batch
  | none => c

/-- The executor runs every batch it holds, in the order they were sent. -/
def executeAll (c : Controller τ) : Controller τ := c.sent.foldl runBatch { c with sent := [] }

/-- Collects every message in the mailbox, in arrival order. -/
def receive (c : Controller τ) : Controller τ :=
  { c with completed := c.completed ++ c.mailbox.flatten, mailbox := [] }

/-- What a turn of the controller finds: the executor has run the batches its pace names next,
or every batch it holds once its pace has run out, and their messages are collected. -/
def collect (c : Controller τ) : Controller τ :=
  match c.pace with
  | [] => c.executeAll.receive
  | is :: rest => (is.foldl execute { c with pace := rest }).receive

/-- The first completion whose request is in flight, and the completions after it. -/
def nextCompletion (inFlight : Table Nat (InFlight τ)) :
    List Completion → Option (Completion × InFlight τ × List Completion)
  | [] => none
  | comp :: rest =>
    match inFlight.get? comp.id with
    | some f => some (comp, f, rest)
    | none => nextCompletion inFlight rest

/-- Takes the next completion: the request leaves the in-flight table, its pair issues the next
waiting request, and its record becomes current. Also gives the record that was current. -/
def beginCompletion (c : Controller τ) (now : Nat) :
    Option (Completion × InFlight τ × Option RecordContext × Controller τ) :=
  match nextCompletion c.inFlight c.completed with
  | none => none
  | some (comp, f, rest) =>
    let c := { c with completed := rest, inFlight := c.inFlight.erase comp.id }
    let (queues, next) := c.queues.release f.key f.state
    let c := { c with queues }
    let c := match next with
      | some r => c.pushActive now r
      | none => c
    some (comp, f, c.current, { c with current := some ⟨f.record, f.key⟩ })

/-- Ends a completion of `record`: the previous record is current again, and the completion is
counted against its record, issuing any requests the key passes on. -/
def endCompletion (c : Controller τ) (now : Nat) (record : Nat)
    (previous : Option RecordContext) : Controller τ :=
  let (ownership, released) := c.ownership.complete record
  released.foldl (fun c r => c.issue now r) { c with current := previous, ownership }

/-- Marks the controller closed; it takes no more requests. -/
def shut (c : Controller τ) : Controller τ := { c with closed := true }

end Controller

end OrderedState
