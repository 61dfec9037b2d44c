import OrderedState.Query.Basic
import OrderedState.Config
import OrderedState.Codec.FromJson

/-!
# Single queries

Queries answered from one document with no state: facts about a request type, validation of a
request, reading a response back, configurations, encoding and decoding values, and the text of
an error.
-/

namespace OrderedState

namespace Query

/-- The kind, read-only flag and payload shape of a request type. -/
def requestTypeInfo (q : Json) : Reading Json := do
  let rt ← readRequestType (← q.need "request_type")
  let kind := match rt.kind? with
    | some k => Json.string k.name
    | none => Json.null
  pure (Json.mkObject [("state_kind", kind), ("read_only", .bool rt.isReadOnly),
    ("payload_shape", .string rt.shape.name)])

/-- Validates a request against a state; the answer is the payload's shape. The request type,
kind and payload are read before the state's name. -/
def validate (q : Json) : Reading Json := do
  let rt ← readRequestType (← q.need "request_type")
  let kind ← readKind (← q.need "kind")
  let p ← readPayload (← q.need "payload")
  let state ← q.needString "state"
  Reading.lift (rt.validate state kind p)
  pure (Json.mkObject [("shape", .string p.shape.name)])

/-- Reads a response back in a given form; the response is read before the request type. -/
def response (q : Json) : Reading Json := do
  let r ← readResponse (← q.need "response")
  let rt ← readRequestType (← q.need "request_type")
  let into ← q.needString "into"
  match into with
  | "done" => do Reading.lift (r.intoDone rt); pure .null
  | "value" => do
    let v ← Reading.lift (r.intoValue rt)
    pure ((v.map hexJson).getD .null)
  | "values" => do
    let vs ← Reading.lift (r.intoValues rt)
    pure (.array (vs.map hexJson))
  | "bool" => .bool <$> Reading.lift (r.intoBool rt)
  | "entries" => entriesJson <$> Reading.lift (r.intoEntries rt)
  | other => Reading.bad ("unknown conversion '" ++ other ++ "'")

/-- The fields of a configuration as a document. -/
def configFields (c : Config) : List (String × Json) :=
  [("batch_size", Json.nat c.batchSize), ("buffer_timeout_ms", Json.nat c.bufferTimeoutMs),
    ("max_in_flight", Json.nat c.maxInFlight), ("worker_threads", Json.nat c.workerThreads),
    ("thread_name_prefix", .string c.threadNamePrefix)]

/-- Reads and validates a configuration from JSON text. -/
def config (q : Json) : Reading Json := do
  let c ← Reading.lift (Config.ofJsonText (← q.needString "json"))
  pure (Json.mkObject (configFields c ++ [("buffer_timeout_ms_duration", Json.nat c.bufferTimeoutMs)]))

/-- The default configuration. -/
def defaultConfig : Reading Json := pure (Json.mkObject (configFields {}))

/-- A field of a configuration given field by field: a non-negative integer; one of another type
fails naming the field alone. -/
def configField (q : Json) (k : String) : Reading Nat := do
  match (← q.need k).nat? with
  | some n => pure n
  | none => Reading.bad k

/-- Validates a configuration given field by field. -/
def validateConfig (q : Json) : Reading Json := do
  let c : Config := {
    batchSize := ← configField q "batch_size"
    bufferTimeoutMs := ← configField q "buffer_timeout_ms"
    maxInFlight := ← configField q "max_in_flight"
    workerThreads := ← configField q "worker_threads" }
  Reading.lift c.validate
  pure .null

/-- A document as a value of a type, or a bad-input failure. -/
def readValue (t : ValueType) (j : Json) : Reading Value :=
  (t.ofJson j).mapError fun m => Failure.badInput ("bad value: " ++ m.message .json)

/-- Encodes one value, or each of a list of values when `values` is given. The names of the
format and the type are taken first, then the documents, then the names are resolved, the type
before the format, and last the documents are read as values. -/
def serialize (q : Json) : Reading Json := do
  let serName ← q.needString "ser"
  let typeName ← q.needString "type"
  let many ← match q.field? "values" with
    | some _ => some <$> q.needList "values"
    | none => pure none
  let one ← match many with
    | some _ => pure Json.null
    | none => q.need "value"
  let t ← readValueType typeName
  let f ← readFormat serName
  match many with
  | some js => do
    let vs ← js.mapM (readValue t)
    pure (.array (vs.map fun v => Reading.okOrError (hexJson <$> Reading.lift (f.encode v))))
  | none => do
    let v ← readValue t one
    hexJson <$> Reading.lift (f.encode v)

/-- Decodes bytes as a value of a type. The names of the format and the type are taken first,
then the bytes, then the names are resolved, the type before the format. -/
def deserialize (q : Json) : Reading Json := do
  let serName ← q.needString "ser"
  let typeName ← q.needString "type"
  let bs ← readHex (← q.need "hex")
  let t ← readValueType typeName
  let f ← readFormat serName
  Value.toJson <$> Reading.lift (f.decode t bs)

/-- An error described by its kind and fields. -/
def readError (e : Json) : Reading StateError := do
  let kind ← e.needString "kind"
  match kind with
  | "KindMismatch" => do
    pure (.kindMismatch (← e.needString "state") (← readKind (← e.need "state_kind"))
      (← readRequestType (← e.need "request_type")))
  | "PayloadMismatch" => do
    pure (.payloadMismatch (← readRequestType (← e.need "request_type"))
      (← readShape (← e.need "expected")) (← readShape (← e.need "got")))
  | "UnexpectedResponse" => do
    pure (.unexpectedResponse (← readRequestType (← e.need "request_type")) (← e.needString "got"))
  | "NoCurrentKey" => pure .noCurrentKey
  | "InvalidConfig" => .invalidConfig <$> e.needString "text"
  | "Store" => .store <$> e.needString "text"
  | "Serialization" => .serialization <$> e.needString "text"
  | "Deserialization" => .deserialization <$> e.needString "text"
  | "Closed" => pure .closed
  | "Executor" => .executor <$> e.needString "text"
  | "Abandoned" => pure .abandoned
  | other => Reading.bad ("unknown error kind '" ++ other ++ "'")

/-- The kind, text and programming flag of an error. -/
def error (q : Json) : Reading Json := do
  let e ← readError (← q.need "error")
  pure (Json.mkObject [("kind", .string e.kindName), ("message", .string e.message),
    ("programming", .bool e.isProgrammingError)])

end Query

end OrderedState
