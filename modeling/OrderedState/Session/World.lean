import OrderedState.Session.Handle
import OrderedState.Controller.Basic

/-!
# The world of a session

A session runs typed operations against a handler and combines their futures. Everything it
can observe lives in one `World`:

* the handler: the controller, a direct handler that runs each request at once, or none;
* the futures, as slots: a slot is pending with the continuations registered on it, in order,
  or done with its result;
* the state of every `combine_all` in progress;
* the log that `on_complete` continuations write.

Continuations are data (`Cont`), so a future's state can be printed and reasoned about; the
interpreter that runs them is in `Session.Run`. This module holds the transitions of the world
that run no continuation.
-/

namespace OrderedState

/-- A future's result: the document of a typed result, or the error. -/
abbrev Outcome := Except StateError Json

/-- An entry of a composed continuation. -/
inductive Inner where
  /-- An operation on a handle as it was when the continuation was registered. With a function,
  the operation's `value` argument is that function of the continuation's current value. -/
  | call (h : Handle) (name : String) (args : Json) (valueFrom : Option Fn)
  /-- Follow a future. -/
  | await (future : Nat)

/-- A continuation: what runs when the future it is registered on is settled. -/
inductive Cont where
  /-- Append an entry to the log of a session future; with `keyed`, it names the current key. -/
  | log (future : Nat) (tag : Json) (keyed : Bool)
  /-- Settle `target` with a function of the result's value, or with the result's error. -/
  | map (fn : Json → Outcome) (target : Nat)
  /-- The composition that combines with `other`: on a value `x`, chain `f x` on `other` into a
  new future and follow that future into `target`; on an error, settle `target` with it. -/
  | pairWith (other : Nat) (f : Json → Json → Json) (target : Nat)
  /-- Record the result as entry `index` of a combination. -/
  | gather (group index : Nat)
  /-- Run the entries of a composed continuation on the result, then follow what they leave. -/
  | compose (program : List Inner) (target : Nat)
  /-- Settle `target` with the result. -/
  | forward (target : Nat)

/-- A future: pending with its continuations in registration order, or done. -/
inductive Slot where
  | pending (waiting : List Cont)
  | done (result : Outcome)

/-- A combination of futures in progress: the results so far, by position, how many are still
missing, and the future the combination settles. -/
structure Gather where
  results : List (Option Outcome)
  remaining : Nat
  target : Nat

/-- What the controller resolves when a request completes: a future, and how the response
reads back as its result. -/
structure Ticket where
  future : Nat
  reply : Reply
  deriving Repr

/-- A handler that runs each request at once against its store. -/
structure Direct where
  store : Store := {}
  current : Option Nat := none
  nextId : Nat := 0
  deriving Repr

namespace Direct

/-- Runs a request of the current key: programming errors and a missing key come back as the
outer error, the store's own result as the inner one. -/
def execute (d : Direct) (state : String) (kind : StateKind) (ns : Bytes) (rt : RequestType)
    (payload : Payload) : Except StateError (Except StateError Response × Direct) := do
  rt.validate state kind payload
  let key ← match d.current with
    | some k => Except.ok k
    | none => Except.error StateError.noCurrentKey
  let id := d.nextId
  let r : Request := { id, key, state, kind, ns, requestType := rt, payload, sequence := id }
  let (res, store) := d.store.execute r
  pure (res, { d with store, nextId := id + 1 })

end Direct

/-- What requests run on. -/
inductive Handler where
  | controller (c : Controller Ticket)
  | direct (d : Direct)
  /-- No handler: a session of futures only. -/
  | absent

/-- What an operation gives: a future, or the result it blocked for. -/
inductive CallResult where
  | future (slot : Nat)
  | value (v : Json)

/-- A result as a document: `{"ok": v}` or the error's fields. -/
def Outcome.toJson (r : Outcome) : Json := Reading.okOrError (Reading.lift r)

/-- The result of a combination: the values in order, or the first error in order. -/
def Gather.outcome (results : List (Option Outcome)) : Outcome :=
  .array <$> (results.filterMap id).mapM id

/-- Everything a session can observe. -/
structure World where
  handler : Handler
  slots : Array Slot := #[]
  gathers : Array Gather := #[]
  logs : Table Nat (List Json) := []
  /-- The time the controller sees, in milliseconds; a session never advances it. -/
  clock : Nat := 0
  /-- Whether a future that was done already has been resolved again, where the library stops
  the thread as unreachable. -/
  resolvedTwice : Bool := false

namespace World

/-- The future in slot `i`. -/
def slot? (w : World) (i : Nat) : Option Slot := w.slots[i]?

/-- Whether the future in slot `i` is done. -/
def isDone (w : World) (i : Nat) : Bool :=
  match w.slot? i with
  | some (.done _) => true
  | _ => false

/-- The world with slot `i` replaced. -/
def setSlot (w : World) (i : Nat) (s : Slot) : World := { w with slots := w.slots.setIfInBounds i s }

/-- A new future, and its slot. -/
def newSlot (w : World) (s : Slot) : Nat × World := (w.slots.size, { w with slots := w.slots.push s })

/-- Changes the controller, if that is the handler. -/
def onController (w : World) (f : Controller Ticket → Controller Ticket) : World :=
  match w.handler with
  | .controller c => { w with handler := .controller (f c) }
  | _ => w

/-- Requests in flight at the controller; none elsewhere. -/
def inFlightCount (w : World) : Nat :=
  match w.handler with
  | .controller c => c.inFlightCount
  | _ => 0

/-- Whether the controller is at its in-flight limit. -/
def full (w : World) : Bool :=
  match w.handler with
  | .controller c => c.full
  | _ => false

/-- Whether the ready buffer has expired. -/
def expired (w : World) : Bool :=
  match w.handler with
  | .controller c => c.expired w.clock
  | _ => false

/-- The handler's current key. -/
def currentKey (w : World) : Option Nat :=
  match w.handler with
  | .controller c => c.currentKey
  | .direct d => d.current
  | .absent => none

/-- Appends an entry for result `r` to the log of session future `fid`. -/
def record (w : World) (fid : Nat) (tag : Json) (keyed : Bool) (r : Outcome) : World :=
  let key := (w.currentKey.map Json.nat).getD .null
  let entry := Json.mkObject ([("tag", tag), ("outcome", r.toJson)] ++
    if keyed then [("key", key)] else [])
  { w with logs := w.logs.set fid (((w.logs.get? fid).getD []) ++ [entry]) }

/-- Records result `r` as entry `index` of combination `g`; when it was the last one missing,
gives the future to settle and its result. -/
def gatherResult (w : World) (g index : Nat) (r : Outcome) : Option (Nat × Outcome) × World :=
  match w.gathers[g]? with
  | none => (none, w)
  | some gr =>
    let results := gr.results.set index (some r)
    let remaining := gr.remaining - 1
    let w := { w with gathers := w.gathers.setIfInBounds g { gr with results, remaining } }
    if remaining = 0 then (some (gr.target, Gather.outcome results), w) else (none, w)

/-- Takes the controller's next completion: its result, its ticket, its record, and the record
that was current before. -/
def beginCompletion (w : World) :
    Option (Except StateError Response × Ticket × Nat × Option RecordContext) × World :=
  match w.handler with
  | .controller c =>
    match c.beginCompletion w.clock with
    | none => (none, w)
    | some (comp, f, previous, c) =>
      (some (comp.result, f.promise, f.record, previous), { w with handler := .controller c })
  | _ => (none, w)

/-- Ends a completion of `record`, making `previous` current again. -/
def endCompletion (w : World) (record : Nat) (previous : Option RecordContext) : World :=
  w.onController fun c => c.endCompletion w.clock record previous

/-- Runs an operation on the direct handler: a blocking one gives its result, another a future
that is already done. -/
def runDirect (w : World) (d : Direct) (h : Handle) (ns : Bytes) (op : Operation) :
    Except StepError CallResult × World :=
  match d.execute h.state h.kind ns op.requestType op.payload with
  | .error e => (.error (.failed e), w)
  | .ok (res, d) =>
    let w := { w with handler := .direct d }
    let out := res.bind op.reply.read
    if op.blocking then
      (match out with
        | .ok v => .ok (.value v)
        | .error e => .error (.failed e), w)
    else
      let (i, w) := w.newSlot (.done out)
      (.ok (.future i), w)

/-- Submits an operation to the controller with a new pending future for its result. -/
def submitTo (w : World) (c : Controller Ticket) (h : Handle) (ns : Bytes) (op : Operation) :
    Except StateError Nat × World :=
  let i := w.slots.size
  match c.submit w.clock h.state h.kind op.requestType ns op.payload ⟨i, op.reply⟩ with
  | .error e => (.error e, w)
  | .ok c =>
    let (i, w) := { w with handler := .controller c }.newSlot (.pending [])
    (.ok i, w)

end World

/-- The arguments of an operation with `value` set to a function of `x`, when a function is
given. -/
def withValue (valueFrom : Option Fn) (x : Json) (args : Json) : Except StateError Json :=
  match valueFrom with
  | none => .ok args
  | some f => do
    let v ← f.apply x
    match args with
    | .object fields => pure (.object (Json.insertField "value" v fields))
    | other => pure other

end OrderedState
