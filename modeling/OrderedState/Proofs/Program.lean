import OrderedState.Proofs.Parking
import OrderedState.Session.World

/-!
# Programs of the processing thread

A program is what the processing thread asks of a handler: it starts records and submits
requests (`Op`). The direct handler runs each submission at once (`Direct.runProgram`); the
controller takes it and runs it later, while the program goes on.

`ProgramRun` is every way the controller can take a program whose continuations submit
nothing. Between two operations the controller flushes, the executor runs batches, and
completions are taken and their continuations run, in any order and as often as they like
(`Internal`), which covers `trigger`, `poll`, `yield_once`, `wait_for`, `drain_inflight` and
the back-pressure wait inside a submission. The operations themselves are made at the top
level, as the session makes them: a submission checks the request type and payload against the
state first, then submits.

Such runs are orderly runs in the sense of `Proofs.Parking`, so parked lines stay in record
order along them (`ProgramRun.orderly`).
-/

namespace OrderedState

variable {τ : Type}

/-- An operation of a program of the processing thread. -/
inductive Op where
  /-- Start a record for a key. -/
  | setKey (key : Nat)
  /-- Submit a request on a state of the current key. -/
  | submit (state : String) (kind : StateKind) (rt : RequestType) (ns : Bytes) (payload : Payload)

namespace Direct

/-- Runs one operation: a submission answers with the store's result, or with the synchronous
error of the request it could not make. -/
def perform (d : Direct) : Op → List (Except StateError (Except StateError Response)) × Direct
  | .setKey key => ([], { d with current := some key })
  | .submit state kind rt ns payload =>
    match d.execute state kind ns rt payload with
    | .ok (res, d') => ([.ok res], d')
    | .error e => ([.error e], d)

/-- Runs a program: the answers of its submissions, in order, and the handler at the end. -/
def runProgram (d : Direct) (ops : List Op) :
    List (Except StateError (Except StateError Response)) × Direct :=
  ops.foldl (fun acc op => (acc.1 ++ (acc.2.perform op).1, (acc.2.perform op).2)) ([], d)

theorem runProgram_append (d : Direct) (ops : List Op) (op : Op) :
    d.runProgram (ops ++ [op]) =
      ((d.runProgram ops).1 ++ ((d.runProgram ops).2.perform op).1,
        ((d.runProgram ops).2.perform op).2) := by
  simp [runProgram, List.foldl_append]

end Direct

open Machine

/-- The runs of a program on the controller: after the operations `ops` the machine is `m`, and
`answers` are the answers of the submissions, in order: the request's id, or the synchronous
error. Operations are made at the top level; around them the controller, the executor and the
continuations of taken completions, which submit nothing, take any steps. -/
inductive ProgramRun (cfg : Config) : List Op → Machine τ → List (Except StateError Nat) → Prop where
  | start : ProgramRun cfg [] (start cfg) []
  | internal {ops : List Op} {m m' : Machine τ} {answers : List (Except StateError Nat)} :
      ProgramRun cfg ops m answers → Internal m m' → ProgramRun cfg ops m' answers
  | setKey {ops : List Op} {m : Machine τ} {answers : List (Except StateError Nat)} (key : Nat) :
      ProgramRun cfg ops m answers → m.frames = [] →
      ProgramRun cfg (ops ++ [.setKey key]) { m with ctl := m.ctl.setCurrentKey key } answers
  /-- A request type or payload that does not fit the state is refused before submitting. -/
  | invalid {ops : List Op} {m : Machine τ} {answers : List (Except StateError Nat)}
      (state : String) (kind : StateKind) (rt : RequestType) (ns : Bytes) (payload : Payload)
      {e : StateError} :
      ProgramRun cfg ops m answers → m.frames = [] → rt.validate state kind payload = .error e →
      ProgramRun cfg (ops ++ [.submit state kind rt ns payload]) m (answers ++ [.error e])
  /-- The controller refuses the submission. -/
  | rejected {ops : List Op} {m : Machine τ} {answers : List (Except StateError Nat)}
      (now : Nat) (state : String) (kind : StateKind) (rt : RequestType) (ns : Bytes)
      (payload : Payload) (promise : τ) {e : StateError} :
      ProgramRun cfg ops m answers → m.frames = [] → rt.validate state kind payload = .ok () →
      m.ctl.submit now state kind rt ns payload promise = .error e →
      ProgramRun cfg (ops ++ [.submit state kind rt ns payload]) m (answers ++ [.error e])
  /-- The controller takes the submission; its answer is the new request's id. -/
  | submit {ops : List Op} {m : Machine τ} {answers : List (Except StateError Nat)}
      (now : Nat) (state : String) (kind : StateKind) (rt : RequestType) (ns : Bytes)
      (payload : Payload) (promise : τ) {c : Controller τ} :
      ProgramRun cfg ops m answers → m.frames = [] → rt.validate state kind payload = .ok () →
      m.ctl.submit now state kind rt ns payload promise = .ok c →
      ProgramRun cfg (ops ++ [.submit state kind rt ns payload]) { m with ctl := c }
        (answers ++ [.ok m.ctl.nextId])

namespace ProgramRun

variable {cfg : Config} {ops : List Op} {m : Machine τ} {answers : List (Except StateError Nat)}

/-- A program run is an orderly run: every submission is made at the top level. -/
theorem orderly (h : ProgramRun cfg ops m answers) : Orderly cfg m := by
  induction h with
  | start => exact .start
  | internal _ hi ih => exact .internal ih hi
  | setKey key _ _ ih => exact .setKey key ih
  | invalid _ _ _ _ _ _ _ _ ih => exact ih
  | rejected _ _ _ _ _ _ _ _ _ _ _ ih => exact ih
  | submit now state kind rt ns payload promise _ hfr _ hs ih =>
    exact .submit now state kind rt ns payload promise ih (.inl hfr) hs

/-- A program never closes the controller. -/
theorem unclosed (h : ProgramRun cfg ops m answers) : m.ctl.closed = false := by
  induction h with
  | start => rfl
  | internal _ hi ih =>
    cases hi with
    | flush => simpa using ih
    | execute i batch hb => simpa [Controller.execute_of_sent hb] using ih
    | receive => exact ih
    | begin now comp f previous c hb =>
      obtain ⟨-, -, -, -, -, -, rfl⟩ := Controller.beginCompletion_eq_some hb
      simpa using ih
    | finish => simpa using ih
    | nestedKey => exact ih
  | setKey _ _ _ ih => exact ih
  | invalid _ _ _ _ _ _ _ _ ih => exact ih
  | rejected _ _ _ _ _ _ _ _ _ _ _ ih => exact ih
  | submit now state kind rt ns payload promise _ _ _ hs ih =>
    obtain ⟨-, -, -, hclosed, -⟩ := Controller.submit_fields ih hs
    exact hclosed

/-- Internal moves carried out between two operations extend a program run. -/
theorem run? (h : ProgramRun cfg ops m answers) {mvs : List (Move τ)} {m' : Machine τ}
    (hmv : m.run? mvs = some m') (hi : mvs.all Move.isInternal = true) :
    ProgramRun cfg ops m' answers := by
  induction mvs generalizing m with
  | nil => cases hmv; exact h
  | cons mv rest ih =>
    obtain ⟨m₁, h₁, h₂⟩ := Option.bind_eq_some_iff.mp hmv
    simp only [List.all_cons, Bool.and_eq_true] at hi
    exact ih (.internal h (internal_of_move? h₁ hi.1)) h₂ hi.2

end ProgramRun

end OrderedState
