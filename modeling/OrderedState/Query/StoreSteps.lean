import OrderedState.Query.Basic
import OrderedState.Store.Basic

/-!
# Running requests on a store

A store query runs requests straight against a fresh store, with no validation: each step
executes one request or a batch, and its answer shows the results and the store's entry and
execution counts after it. Requests are numbered 1, 2, … in the order they appear.
-/

namespace OrderedState

namespace Query

/-- A store's counts as a document. -/
def storeCounts (s : Store) : Json :=
  Json.mkObject [("entries", Json.nat s.entryCount), ("executed", Json.nat s.executed)]

/-- A request document, numbered `n`. Its fields are read in the order key, state, kind,
namespace, request type, payload. -/
def readStoreRequest (n : Nat) (j : Json) : Reading Request := do
  let key ← (← j.need "key").toKey
  let state ← j.needString "state"
  let kind ← match j.field? "kind" with
    | none => pure StateKind.value
    | some k => readKind k
  let ns ← match j.field? "namespace" with
    | none => pure []
    | some h => readHex h
  let rt ← readRequestType (← j.need "request_type")
  let p ← readPayload (← j.need "payload")
  pure { id := n, key, state, kind, ns, requestType := rt, payload := p, sequence := n }

/-- The result of one request as a document. -/
def resultJson (r : Except StateError Response) : Json :=
  Reading.okOrError (Response.toJson <$> Reading.lift r)

/-- Runs one step: its answer, the store after it, and the next request number. A failure that
stops the whole query is passed on instead. -/
def storeStep (s : Store) (n : Nat) (step : Json) : Reading (Json × Store × Nat) :=
  let run : Reading (Json × Store × Nat) :=
    match step.field? "execute", step.field? "batch" with
    | some req, _ => do
      let r ← readStoreRequest n req
      let (res, s') := s.execute r
      pure (resultJson res, s', n + 1)
    | none, some (.array reqs) => do
      let rs ← (reqs.zip (List.range reqs.length)).mapM fun (j, i) => readStoreRequest (n + i) j
      let (results, s') := s.executeBatch rs
      pure (.array (results.map resultJson), s', n + rs.length)
    | none, some _ => Reading.bad "batch must be an array"
    | none, none => Reading.bad "store step needs 'execute' or 'batch'"
  match run with
  | .ok (res, s', n') => .ok (Json.mkObject [("result", res), ("store", storeCounts s')], s', n')
  | .error f =>
    if f.isPanic then .error f
    else .ok (Json.mkObject (f.fields ++ [("store", storeCounts s)]), s, n)

/-- Runs all steps on a fresh store. -/
def store (q : Json) : Reading Json := do
  let steps ← q.needList "steps"
  let (answers, _, _) ← steps.foldlM (fun (acc, s, n) step => do
    let (a, s', n') ← storeStep s n step
    pure (a :: acc, s', n')) ([], ({} : Store), 1)
  pure (Json.mkObject [("steps", .array answers.reverse)])

end Query

end OrderedState
