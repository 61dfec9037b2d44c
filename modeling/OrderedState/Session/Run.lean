import OrderedState.Session.World

/-!
# Running a session

The processing thread of a session does everything in this module: it settles futures and runs
their continuations, submits requests, and drives the controller by taking completions. These
are mutually recursive, since a continuation may submit a request and block for it, and
blocking takes completions, which settle futures and run their continuations in turn.

* `settle` makes a pending future done and runs its continuations in registration order; a
  future that is done already keeps its result, and the world records that it was resolved
  twice;
* `attach` registers a continuation, which runs at once on a future that is done;
* `perform` runs the entries of a composed continuation;
* `request` runs an operation through the handler; on the controller it first waits for
  capacity (`makeRoom`), and a blocking operation then waits for its own future (`waitFor`);
* `pass` is one turn of the controller: flush the ready buffer, collect the messages of the
  batches the executor has run by then (`Controller.collect`, at the executor's pace), take
  every completion in order (`takeAll`), flush again. It counts the completions.

Taking a completion makes the completing request's record current while its future is settled,
so follow-ups submitted by its continuations belong to that record; the record that was current
before is restored after. `waitFor` gives `Abandoned` when a turn completes nothing and nothing
is in flight while the future is still pending.

Every function takes an explicit step budget, the first argument, and each call spends one
step; the continuations of a future all run with the budget left once it is settled. A call out
of budget does nothing: a wait gives `Abandoned`, and a request that finds no room before its
budget runs out is not submitted.
-/

namespace OrderedState

/-- The processing thread's computations on the world. -/
abbrev Run := StateM World

mutual

/-- Makes the pending future in slot `i` done with `r`, then runs its continuations in
registration order, each with the same budget. A future that is done already is marked as
resolved twice. -/
def settle : Nat → Nat → Outcome → Run Unit
  | 0, _, _ => pure ()
  | fuel + 1, i, r => do
    match (← get).slot? i with
    | some (.pending ks) => do
      modify (·.setSlot i (.done r))
      ks.forM fun k => resume fuel k r
    | some (.done _) => modify fun w => { w with resolvedTwice := true }
    | none => pure ()

/-- Runs one continuation on the result of the future it was registered on. -/
def resume : Nat → Cont → Outcome → Run Unit
  | 0, _, _ => pure ()
  | _ + 1, .log fid tag keyed, r => modify (·.record fid tag keyed r)
  | fuel + 1, .map fn t, r => settle fuel t (r.bind fn)
  | fuel + 1, .pairWith o f t, .ok x => do
    let t' ← modifyGet (·.newSlot (.pending []))
    attach fuel o (.map (fun y => .ok (f x y)) t')
    attach fuel t' (.forward t)
  | fuel + 1, .pairWith _ _ t, .error e => settle fuel t (.error e)
  | fuel + 1, .gather g index, r => do
    match ← modifyGet (·.gatherResult g index r) with
    | some (t, out) => settle fuel t out
    | none => pure ()
  | fuel + 1, .compose program t, .ok x => do
    match ← perform fuel program x none with
    | .ok (_, some s) => attach fuel s (.forward t)
    | .ok (y, none) => settle fuel t (.ok y)
    | .error e => settle fuel t (.error e)
  | fuel + 1, .compose _ t, .error e => settle fuel t (.error e)
  | fuel + 1, .forward t, r => settle fuel t r

/-- Registers a continuation on the future in slot `i`; on a future that is done it runs at
once. -/
def attach : Nat → Nat → Cont → Run Unit
  | 0, _, _ => pure ()
  | fuel + 1, i, k => do
    match (← get).slot? i with
    | some (.pending ks) => modify (·.setSlot i (.pending (ks ++ [k])))
    | some (.done r) => resume fuel k r
    | none => pure ()

/-- Runs the entries of a composed continuation from the value `x` and the future `p` it
follows. A blocking operation's result becomes the value and clears the future; an `async_`
operation or an `await` sets the future. Gives the value and future at the end, or the error
that ends the run: bad input becomes a store error. -/
def perform : Nat → List Inner → Json → Option Nat → Run (Except StateError (Json × Option Nat))
  | 0, _, _, _ => pure (.error .abandoned)
  | _ + 1, [], x, p => pure (.ok (x, p))
  | fuel + 1, .await s :: rest, x, _ => perform fuel rest x (some s)
  | fuel + 1, .call h name args valueFrom :: rest, x, _ => do
    match withValue valueFrom x args with
    | .error e => pure (.error e)
    | .ok args => do
      match ← invoke fuel h name args with
      | .ok (.future s) => perform fuel rest x (some s)
      | .ok (.value v) => perform fuel rest v none
      | .error e => pure (.error e.toStateError)

/-- Runs the operation `name` of a handle with arguments `args`. -/
def invoke : Nat → Handle → String → Json → Run (Except StepError CallResult)
  | 0, _, _, _ => pure (.error (.failed .abandoned))
  | fuel + 1, h, name, args =>
    match h.prepare name args with
    | .error e => pure (.error e)
    | .ok op => request fuel h op

/-- Runs a prepared operation through the handler, in the handle's current namespace. -/
def request : Nat → Handle → Operation → Run (Except StepError CallResult)
  | 0, _, _ => pure (.error (.failed .abandoned))
  | fuel + 1, h, op => do
    match h.namespaces.encode h.ns with
    | .error e => pure (.error (.failed e))
    | .ok ns =>
      match (← get).handler with
      | .absent => pure (.error (.badInput "no handler"))
      | .direct d => modifyGet (·.runDirect d h ns op)
      | .controller c =>
        match op.requestType.validate h.state h.kind op.payload, c.accepting with
        | .error e, _ => pure (.error (.failed e))
        | .ok (), .error e => pure (.error (.failed e))
        | .ok (), .ok () => do
          if ← makeRoom fuel then
            match (← get).handler with
            | .controller c => do
              match ← modifyGet (·.submitTo c h ns op) with
              | .error e => pure (.error (.failed e))
              | .ok s =>
                if op.blocking then do
                  match ← waitFor fuel s with
                  | .ok v => pure (.ok (.value v))
                  | .error e => pure (.error (.failed e))
                else pure (.ok (.future s))
            | _ => pure (.error (.failed .closed))
          else pure (.error (.failed .abandoned))

/-- Turns the controller until it is below its in-flight limit, and gives whether it is: a
wait that runs out of budget at the limit gives up. -/
def makeRoom : Nat → Run Bool
  | 0 => do pure !(← get).full
  | fuel + 1 => do
    if (← get).full then do
      let _ ← pass fuel
      makeRoom fuel
    else pure true

/-- One turn of the controller; gives the number of completions taken. -/
def pass : Nat → Run Nat
  | 0 => pure 0
  | fuel + 1 => do
    modify (·.onController Controller.flush)
    modify (·.onController Controller.collect)
    let n ← takeAll fuel 0
    modify (·.onController Controller.flush)
    pure n

/-- Takes every collected completion in order, settling each request's future under its
record; gives `n` plus the number taken. -/
def takeAll : Nat → Nat → Run Nat
  | 0, n => pure n
  | fuel + 1, n => do
    match ← modifyGet World.beginCompletion with
    | none => pure n
    | some (res, ticket, record, previous) => do
      settle fuel ticket.future (res.bind ticket.reply.read)
      modify (·.endCompletion record previous)
      takeAll fuel (n + 1)

/-- Turns the controller until the future in slot `i` is done, and gives its result. -/
def waitFor : Nat → Nat → Run Outcome
  | 0, _ => pure (.error .abandoned)
  | fuel + 1, i => do
    match (← get).slot? i with
    | some (.done r) => pure r
    | _ => do
      let n ← pass fuel
      let w ← get
      if n = 0 ∧ w.inFlightCount = 0 then
        match w.slot? i with
        | some (.done r) => pure r
        | _ => pure (.error .abandoned)
      else waitFor fuel i

end

/-- Combines the futures in `slots` into one of all their results in order, or the first error
in order, and gives its slot. With no futures it is done at once. Otherwise a new combination
waits for a result at each position, taken from a continuation on that position's future; a
future that is done gives its result at once. -/
def combine (fuel : Nat) (slots : List Nat) : Run Nat := do
  match slots with
  | [] => modifyGet (·.newSlot (.done (.ok (.array []))))
  | _ => do
    let t ← modifyGet (·.newSlot (.pending []))
    let g ← modifyGet fun w => (w.gathers.size,
      { w with gathers := w.gathers.push ⟨slots.map fun _ => none, slots.length, t⟩ })
    slots.zipIdx.forM fun (src, index) => attach fuel src (.gather g index)
    pure t

/-- Turns the controller until nothing is in flight. -/
def settleAll : Nat → Run Unit
  | 0 => pure ()
  | fuel + 1 => do
    if 0 < (← get).inFlightCount then do
      let _ ← pass fuel
      settleAll fuel
    else pure ()

/-- Waits for the future in slot `i` for `ms` milliseconds. Time stands still, so a wait of
zero gives up at once; a longer one turns the controller until the future is done or nothing
is in flight. Gives the result, or nothing when the future is still pending. -/
def waitWithin : Nat → Nat → Nat → Run (Option Outcome)
  | 0, _, _ => pure none
  | fuel + 1, i, ms => do
    let w ← get
    match w.slot? i with
    | some (.done r) => pure (some r)
    | _ =>
      if ms = 0 ∨ w.inFlightCount = 0 then pure none
      else do
        let _ ← pass fuel
        waitWithin fuel i ms

/-- Polls the controller: flushes an expired buffer, takes what has completed, and flushes
again when something completed. -/
def poll (fuel : Nat) : Run Nat := do
  if (← get).expired then modify (·.onController Controller.flush)
  modify (·.onController Controller.collect)
  let n ← takeAll fuel 0
  if 0 < n then modify (·.onController Controller.flush)
  pure n

/-- Closes the controller: waits until nothing is in flight, then takes no more requests. -/
def shutDown (fuel : Nat) : Run Unit := do
  match (← get).handler with
  | .controller c =>
    if c.closed then pure ()
    else do
      settleAll fuel
      modify (·.onController Controller.shut)
  | _ => pure ()

end OrderedState
