import OrderedState.Query.Small
import OrderedState.Query.StoreSteps
import OrderedState.Query.Scenario

/-!
# Answering a query

`Query.answer` reads the operation a query names in its field `op` and answers it with one
document: `{"result": …}` or `{"error": …, "message": …}`.
-/

namespace OrderedState

namespace Query

/-- The answer to a query by its operation. -/
def dispatch (q : Json) : Reading Json := do
  let op ← match q.field? "op" with
    | some (.string op) => pure op
    | some _ => Reading.bad "field 'op' must be a string"
    | none => Reading.bad "missing field 'op'"
  match op with
  | "request_type" => requestTypeInfo q
  | "validate" => validate q
  | "response" => response q
  | "config" => config q
  | "default_config" => defaultConfig
  | "validate_config" => validateConfig q
  | "serialize" => serialize q
  | "deserialize" => deserialize q
  | "error" => error q
  | "store" => store q
  | "scenario" => scenario q
  | other => Reading.bad ("unknown op '" ++ other ++ "'")

/-- The answer document to a query document. -/
def answer (q : Json) : Json := Reading.answer (dispatch q)

/-- The answer to a query given as text; text that is not JSON is bad input. -/
def answerText (line : String) : String :=
  match Json.parse line.toUTF8.toList with
  | .ok q => (answer q).render
  | .error e => (Reading.answer (Reading.bad ("invalid JSON: " ++ e))).render

end Query

end OrderedState
