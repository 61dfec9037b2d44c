import OrderedState.Session.Run
import OrderedState.Query.StoreSteps

/-!
# Steps of a session

A session is a script of steps against one handler: set the current key, run typed operations
on handles, make and combine futures, drive the controller, and look at results. Each step
answers with `{"result": R}` or an error, followed by a snapshot of what the script fixes.

## What a snapshot shows

On the controller, requests run on other threads, so how far a step gets can vary from run to
run. A session tracks whether its controller counts are still fixed by the script (`exact`),
and whether a composed continuation may still be pending (`composed`). Let `before` be the
number of requests in flight when a step starts:

* an operation loses exactness when it starts at the in-flight limit, or blocks with requests
  in flight; so do `wait`, `poll` and `yield` with requests in flight, and a `wait_timeout` with
  a positive timeout;
* `drain` and `close` settle everything and restore it;
* completing or dropping a promise after a composition loses it, since the continuation may run
  now or later;
* a composition is refused while exactness is lost, and loses it when its source is done and
  an entry blocks or would meet the in-flight limit.

While exactness holds, the controller's answer shows its counts, and the store's when nothing is
in flight; results that depend on timing are shown as skipped when it does not. A direct
handler always shows its store; without a handler nothing is shown.

Session futures are numbered from 0 in the order steps create them; each stands for a slot of
the world. A future made by `then_combine`, or by `combine_all` from more than one input, is
`combined`: the key its continuations see depends on which input finished last, so its log
entries name no key on the controller. `then_apply` and `then_accept` pass the mark on from
their source, and `then_compose` from its source alone; a `combine_all` of one input does not
carry it.
-/

namespace OrderedState

/-- A session: its world, handles, futures and promises, and what its snapshots may show. -/
structure Session where
  world : World
  handles : List Handle := []
  /-- The slot of each session future. -/
  futures : Array Nat := #[]
  /-- Whether each session future is combined. -/
  combined : Array Bool := #[]
  /-- The slot of each promise, and whether it has been used. -/
  promises : Array (Nat × Bool) := #[]
  exact : Bool := true
  composed : Bool := false

/-- A step's computation: it may fail, keeping what it changed before. -/
abbrev StepM := ExceptT StepError (StateM Session)

/-- The answer shown for results that depend on timing. -/
def skipped : Json := Json.mkObject [("skipped", .string "nondeterministic")]

namespace Session

/-- Whether the session runs on the controller. -/
def onController (s : Session) : Bool :=
  match s.world.handler with
  | .controller _ => true
  | _ => false

/-- The controller's in-flight limit. -/
def limit (s : Session) : Nat :=
  match s.world.handler with
  | .controller c => c.config.maxInFlight
  | _ => 0

/-- The snapshot fields after a step. -/
def snapshot (s : Session) : List (String × Json) :=
  match s.world.handler with
  | .controller c =>
    if s.exact then
      [("counts", Json.mkObject [("in_flight", Json.nat c.inFlightCount),
        ("buffered", Json.nat c.bufferedCount), ("queued", Json.nat c.queuedCount),
        ("blocked", Json.nat c.blockedCount)])] ++
      (if c.inFlightCount = 0 then [("store", Query.storeCounts c.store)] else [])
    else []
  | .direct d => [("store", Query.storeCounts d.store)]
  | .absent => []

/-- The session's handle with a label. -/
def handle? (s : Session) (label : String) : Option Handle := s.handles.find? (·.label = label)

/-- The session with a handle added, or put in place of the handle with its label. -/
def withHandle (s : Session) (h : Handle) : Session :=
  if s.handles.any (·.label = h.label) then
    { s with handles := s.handles.map fun g => if g.label = h.label then h else g }
  else { s with handles := s.handles ++ [h] }

end Session

namespace Step

/-- Fails with bad input. -/
def bad {α : Type} (message : String) : StepM α := throw (.badInput message)

/-- What a reading gives, failing with bad input, or with a panic for a fault that stops the
whole script. -/
def read {α : Type} (r : Reading α) : StepM α :=
  match r with
  | .ok a => pure a
  | .error f => if f.isPanic then throw (.panic f.message) else bad f.message

/-- What a library call gives, failing with its error. -/
def lib {α : Type} (r : Except StateError α) : StepM α :=
  match r with
  | .ok a => pure a
  | .error e => throw (.failed e)

/-- Runs a computation of the processing thread on the session's world. -/
def inWorld {α : Type} (m : Run α) : StepM α :=
  ExceptT.lift (modifyGet fun s =>
    let (a, w) := Id.run (m.run s.world)
    (a, { s with world := w }))

/-- Exactness is lost, on the controller, when `lost` holds. -/
def unsettle (lost : Bool) : StepM Unit :=
  modify fun s => if lost && s.onController then { s with exact := false } else s

/-- A handle by label. -/
def handle (label : String) : StepM Handle := do
  match (← get).handle? label with
  | some h => pure h
  | none => bad ("unknown handle '" ++ label ++ "'")

/-- The handle named in field `h`. -/
def handleOf (q : Json) : StepM Handle := do handle (← read (q.needString "h"))

/-- A session future given as a document: its number and slot. -/
def futureOf (j : Json) : StepM (Nat × Nat) := do
  match j.nat? with
  | some n =>
    match (← get).futures[n]? with
    | some slot => pure (n, slot)
    | none => bad ("unknown future " ++ j.render)
  | none => bad "future id must be an integer"

/-- The session future in field `k`. -/
def futureAt (q : Json) (k : String) : StepM (Nat × Nat) := do
  futureOf (← read (q.need k))

/-- The session future in field `future`. -/
def future (q : Json) : StepM (Nat × Nat) := futureAt q "future"

/-- Whether a session future is combined. -/
def isCombined (n : Nat) : StepM Bool := do pure (((← get).combined[n]?).getD false)

/-- A function by name. -/
def fn (name : String) : StepM Fn :=
  match Fn.ofName? name with
  | some f => pure f
  | none => bad ("unknown function '" ++ name ++ "'")

/-- Makes slot `slot` a new session future, and gives its number. -/
def addFuture (slot : Nat) (combined : Bool) : StepM Nat := do
  let n := (← get).futures.size
  modify fun s => { s with futures := s.futures.push slot, combined := s.combined.push combined }
  pure n

/-- Makes slot `slot` a new session future, and answers with its number. -/
def newFuture (slot : Nat) (combined : Bool) : StepM Json := do
  let n ← addFuture slot combined
  pure (Json.mkObject [("future", Json.nat n)])

/-- A new slot in the world. -/
def newSlot (slot : Slot) : StepM Nat := inWorld (modifyGet (·.newSlot slot))

/-- A result as the answer of `try_get`: `null` while pending. -/
def peek (slot : Nat) : StepM Json := do
  match (← get).world.slot? slot with
  | some (.done r) => pure r.toJson
  | _ => pure .null

end Step

open Step

namespace Session

/-- `set_key`: starts a record for a key. -/
def setKey (q : Json) : StepM Json := do
  let k ← read ((← read (q.need "key")).toKey)
  match (← get).world.handler with
  | .absent => bad "no handler"
  | .controller c => do
    modify fun s => { s with world := { s.world with handler := .controller (c.setCurrentKey k) } }
    pure .null
  | .direct d => do
    modify fun s => { s with world := { s.world with handler := .direct { d with current := some k } } }
    pure .null

/-- `current_key`: the handler's current key, or `null` (always, without a handler). -/
def currentKey : StepM Json := do
  pure (((← get).world.currentKey.map Json.nat).getD .null)

/-- A call's result as an answer: a future's number, or the value it blocked for. -/
def answerCall (r : Except StepError CallResult) : StepM Json := do
  match r with
  | .ok (.future slot) => newFuture slot false
  | .ok (.value v) => pure v
  | .error e => throw e

/-- `call`: runs a typed operation on a handle. Exactness is settled from the operation's name
before the handle is looked up. -/
def call (fuel before : Nat) (q : Json) : StepM Json := do
  let name ← read (q.needString "call")
  let blocking := (Handle.splitName name).2
  let s ← get
  unsettle (decide (s.limit ≤ before) || (blocking && decide (0 < before)))
  let h ← handleOf q
  answerCall (← inWorld (invoke fuel h name q))

/-- `raw`: runs a request of a given type and payload on a handle's state. Exactness is settled
from the request before the handle is looked up. -/
def raw (fuel before : Nat) (q : Json) : StepM Json := do
  let rt ← read (readRequestType (← read (q.need "request_type")))
  let p ← read (readPayload (← read (q.need "payload")))
  let sync := ((q.field? "sync").bind Json.bool?).getD false
  let s ← get
  unsettle (decide (s.limit ≤ before) || (sync && decide (0 < before)))
  let h ← handleOf q
  answerCall (← inWorld (request fuel h ⟨rt, p, .raw, sync⟩))

/-- `info`: a handle's state name and kind. -/
def info (q : Json) : StepM Json := do
  let h ← handleOf q
  pure (Json.mkObject [("id", .string h.state), ("kind", .string h.kind.name)])

/-- `set_namespace`: moves a handle to another namespace. The label and the namespace are read
before the handle is looked up. -/
def setNamespace (q : Json) : StepM Json := do
  let label ← read (q.needString "h")
  let j ← read (q.need "namespace")
  let h ← handle label
  match h.namespaces.type.ofJson j with
  | .ok ns => do
    modify fun s => s.withHandle { h with ns }
    pure .null
  | .error m => bad ("bad value: " ++ m.message .json)

/-- `wait`: blocks for a future on the controller; elsewhere looks at it. -/
def wait (fuel before : Nat) (q : Json) : StepM Json := do
  let (_, slot) ← future q
  unsettle (decide (0 < before))
  if (← get).onController then lib (← inWorld (waitFor fuel slot))
  else
    match (← get).world.slot? slot with
    | some (.done r) => lib r
    | _ => pure (Json.mkObject [("pending", .bool true)])

/-- `wait_timeout`: waits for a future for `ms` milliseconds on the controller; elsewhere looks
at it, and `ms` is not read. -/
def waitTimeout (fuel before : Nat) (q : Json) : StepM Json := do
  let (_, slot) ← future q
  if (← get).onController then do
    let ms ← match (← read (q.need "ms")).nat? with
      | some ms => pure ms
      | none => bad "ms must be an integer"
    unsettle (decide (0 < ms) && decide (0 < before))
    let r ← inWorld (waitWithin fuel slot ms)
    if ms = 0 && !(← get).exact then pure skipped
    else pure ((r.map Outcome.toJson).getD .null)
  else peek slot

/-- `try_get`: a future's result, or `null` while pending. -/
def tryGet (q : Json) : StepM Json := do
  let (_, slot) ← future q
  if (← get).exact then peek slot else pure skipped

/-- `is_done`: whether a future is done. -/
def isDone (q : Json) : StepM Json := do
  let (_, slot) ← future q
  if (← get).exact then pure (.bool ((← get).world.isDone slot)) else pure skipped

/-- Runs a turn of the controller when there is one. -/
def turn (before : Nat) (m : Run Nat) : StepM Json := do
  unsettle (decide (0 < before))
  if (← get).onController then do
    let _ ← inWorld m
    pure .null
  else pure .null

/-- `trigger`: flushes the ready buffer. -/
def trigger : StepM Json := do
  inWorld (modify (·.onController Controller.flush))
  pure .null

/-- `drain`: waits until nothing is in flight. -/
def drain (fuel : Nat) : StepM Json := do
  modify fun s => { s with exact := true }
  inWorld (settleAll fuel)
  pure .null

/-- `close`: drains the controller and closes it. -/
def close (fuel : Nat) : StepM Json := do
  modify fun s => { s with exact := true }
  inWorld (shutDown fuel)
  pure .null

/-- `is_closed`: whether the controller is closed. -/
def isClosed : StepM Json := do
  match (← get).world.handler with
  | .controller c => pure (.bool c.closed)
  | _ => bad "operation needs the controller handler"

/-- `pending`: a new pending future and the promise that settles it. -/
def pending : StepM Json := do
  let slot ← newSlot (.pending [])
  let p := (← get).promises.size
  modify fun s => { s with promises := s.promises.push (slot, false) }
  let f ← addFuture slot false
  pure (Json.mkObject [("future", Json.nat f), ("promise", Json.nat p)])

/-- The number in field `promise`. -/
def promiseId (q : Json) : StepM Nat := do
  match (← read (q.need "promise")).nat? with
  | some n => pure n
  | none => bad "promise id must be an integer"

/-- Promise `n` if it is unused, which is used from now on; gives its slot. -/
def usePromise (n : Nat) : StepM Nat := do
  match (← get).promises[n]? with
  | some (slot, false) => do
    modify fun s => { s with promises := s.promises.setIfInBounds n (slot, true) }
    unsettle (← get).composed
    pure slot
  | some (_, true) => bad "promise already used"
  | none => bad ("unknown promise " ++ toString n)

/-- `complete`: settles a promise's future with a value or a store error. The promise's number
is read first, then the result, and the promise is looked up last. -/
def complete (fuel : Nat) (q : Json) : StepM Json := do
  let n ← promiseId q
  let r : Outcome ← match q.field? "error" with
    | some (.string m) => pure (.error (.store m))
    | some _ => bad "error must be a string"
    | none => do pure (.ok (← read (q.need "value")))
  let slot ← usePromise n
  inWorld (settle fuel slot r)
  pure .null

/-- `drop_promise`: drops a promise, which abandons its future. -/
def dropPromise (fuel : Nat) (q : Json) : StepM Json := do
  let slot ← usePromise (← promiseId q)
  inWorld (settle fuel slot (.error .abandoned))
  pure .null

/-- `completed`: a future done with a value. -/
def completed (q : Json) : StepM Json := do
  let v ← read (q.need "value")
  newFuture (← newSlot (.done (.ok v))) false

/-- `failed`: a future failed with a store error. -/
def failed (q : Json) : StepM Json := do
  let m ← read (q.needString "error")
  newFuture (← newSlot (.done (.error (.store m)))) false

/-- A new future settled by a continuation on a session future. -/
def derive (fuel : Nat) (source : Nat × Nat) (combined : Bool) (k : Nat → Cont) : StepM Json := do
  let t ← newSlot (.pending [])
  inWorld (attach fuel source.2 (k t))
  newFuture t (combined || (← isCombined source.1))

/-- `then_apply`: a future of a function of a result. -/
def thenApply (fuel : Nat) (q : Json) : StepM Json := do
  let src ← future q
  let f ← fn (← read (q.needString "fn"))
  derive fuel src false (.map f.apply)

/-- `then_accept`: a future of `null` once a result is a value. -/
def thenAccept (fuel : Nat) (q : Json) : StepM Json := do
  let src ← future q
  derive fuel src false (.map fun _ => .ok .null)

/-- `then_combine`: a future of the pair of two results, made as a composition that maps the
other future by the pairing with the first one's value. -/
def thenCombine (fuel : Nat) (q : Json) : StepM Json := do
  let src ← future q
  let (_, other) ← futureAt q "other"
  derive fuel src true (.pairWith other fun x y => .array [x, y])

/-- `combine_all`: a future of all results in order, or the first error in order. -/
def combineAll (fuel : Nat) (q : Json) : StepM Json := do
  let srcs ← (← read (q.needList "futures")).mapM futureOf
  newFuture (← inWorld (combine fuel (srcs.map (·.2)))) (decide (1 < srcs.length))

/-- An entry of a composed continuation: an `await`, or a call read in the order operation,
function, handle. -/
def readInner (j : Json) : StepM Inner := do
  match j.field? "await" with
  | some a => do
    let (_, slot) ← futureOf a
    pure (.await slot)
  | none => do
    let name ← read (j.needString "call")
    let valueFrom ← match j.field? "value_from" with
      | none => pure none
      | some (.string f) => do pure (some (← fn f))
      | some _ => bad "value_from must be a string"
    let h ← handleOf j
    pure (.call h name j valueFrom)

/-- Whether an entry of a composed continuation blocks. -/
def Inner.blocks : Inner → Bool
  | .call _ name _ _ => (Handle.splitName name).2
  | .await _ => false

/-- `then_compose`: a future that follows the entries of a continuation run on a result. -/
def thenCompose (fuel before : Nat) (q : Json) : StepM Json := do
  let src ← future q
  let s ← get
  if s.onController && !s.exact then
    bad "then_compose needs settled controller counts (drain first)"
  else do
    let program ← (← read (q.needList "then")).mapM readInner
    modify fun s => { s with composed := true }
    let n := program.length
    let s ← get
    unsettle (decide (0 < n) && s.world.isDone src.2 &&
      (program.any Inner.blocks || decide (s.limit ≤ before + n - 1)))
    derive fuel src false (.compose program)

/-- `on_complete`: registers a continuation that logs the result. -/
def onComplete (fuel : Nat) (q : Json) : StepM Json := do
  let (n, slot) ← future q
  let tag := (q.field? "tag").getD .null
  let s ← get
  let keyed := !s.onController || (s.exact && !(← isCombined n))
  modify fun s => { s with world := { s.world with
    logs := s.world.logs.set n ((s.world.logs.get? n).getD []) } }
  inWorld (attach fuel slot (.log n tag keyed))
  pure .null

/-- `log`: every logged future with its entries, by future number. -/
def log : StepM Json := do
  let s ← get
  if !s.exact then pure skipped
  else
    let sorted := s.world.logs.mergeSort fun a b => decide (a.1 ≤ b.1)
    pure (.array (sorted.map fun (n, calls) =>
      Json.mkObject [("future", Json.nat n), ("calls", .array calls)]))

/-- The description of a future's state. -/
def describeSlot : Slot → String
  | .pending ks => "StateFuture(Pending(" ++ toString ks.length ++ " continuations))"
  | .done (.ok _) => "StateFuture(Completed)"
  | .done (.error e) => "StateFuture(Failed(" ++ e.message ++ "))"

/-- `debug`: the description of a handle, or else of a future. -/
def debug (q : Json) : StepM Json := do
  match q.field? "h" with
  | some _ => do
    let h ← handleOf q
    match h.describe with
    | some d => pure (.string d)
    | none => bad "map handles have no stable debug text"
  | none => do
    let j ← read (q.need "future")
    let (_, slot) ← futureOf j
    let s ← get
    if !s.exact then pure skipped
    else
      match s.world.slot? slot with
      | some sl => pure (.string (describeSlot sl))
      | none => bad ("unknown future " ++ j.render)

/-- Runs one step, given the number of requests in flight when it starts. -/
def runStep (fuel before : Nat) (q : Json) : StepM Json := do
  let op ← read (q.needString "op")
  match op with
  | "set_key" => setKey q
  | "current_key" => currentKey
  | "call" => call fuel before q
  | "raw" => raw fuel before q
  | "info" => info q
  | "set_namespace" => setNamespace q
  | "wait" => wait fuel before q
  | "wait_timeout" => waitTimeout fuel before q
  | "try_get" => tryGet q
  | "is_done" => isDone q
  | "poll" => turn before (OrderedState.poll fuel)
  | "yield" => turn before (pass fuel)
  | "trigger" => trigger
  | "drain" => drain fuel
  | "close" => close fuel
  | "is_closed" => isClosed
  | "pending" => pending
  | "complete" => complete fuel q
  | "drop_promise" => dropPromise fuel q
  | "completed" => completed q
  | "failed" => failed q
  | "then_apply" => thenApply fuel q
  | "then_accept" => thenAccept fuel q
  | "then_combine" => thenCombine fuel q
  | "combine_all" => combineAll fuel q
  | "then_compose" => thenCompose fuel before q
  | "on_complete" => onComplete fuel q
  | "log" => log
  | "debug" => debug q
  | other => bad ("unknown step op '" ++ other ++ "'")

/-- The step budget of one step: far more nested calls than any step of a script reaches. -/
def budget : Nat := 1000000

/-- Runs one step and answers with its result or error and the snapshot after it; a fault that
stops the whole script is passed on instead. -/
def step (s : Session) (q : Json) : Reading (Json × Session) :=
  let before := s.world.inFlightCount
  let (r, s) := Id.run ((runStep budget before q).run.run s)
  match r with
  | .error (.panic m) => .error (Failure.panic m)
  | r =>
    let body := match r with
      | .ok v => [("result", v)]
      | .error e => e.failure.fields
    .ok (Json.mkObject (body ++ s.snapshot), s)

/-- Runs all steps in order; a fault that stops the script becomes the answer of the whole
scenario. -/
def runAll (s : Session) (steps : List Json) : Reading (List Json) := do
  let (answers, _) ← steps.foldlM (fun (acc, s) q => do
    let (a, s) ← s.step q
    pure (a :: acc, s)) ([], s)
  pure answers.reverse

end Session

end OrderedState
