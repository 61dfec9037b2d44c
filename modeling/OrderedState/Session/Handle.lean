import OrderedState.Query.Small
import OrderedState.Session.Function

/-!
# State handles and their operations

A handle is a typed view of one named state: its kind, how its values (and, for a map, its user
keys) are typed and written, how its namespaces are written, and the namespace it currently
works in. Handles with the same state name address the same stored state, whatever their kinds
or types.

An operation of a handle becomes a request: `Handle.prepare` reads the operation's arguments as
values of the handle's types, writes them in the handle's formats, and pairs the request with a
`Reply`, which says how the response reads back as the typed result, written as a document. An
operation whose name starts with `async_` gives a future; the others block for the result.

Preparing fails with a `StepError`: bad input (an unknown operation, a missing argument, an
argument not of its type), or a library error (a value the format cannot write).
-/

namespace OrderedState

/-- Why a step of a session fails: input the session cannot read, an error of the library, or a
fault that stops the whole script. -/
inductive StepError where
  | badInput (message : String)
  | failed (e : StateError)
  | panic (message : String)
  deriving DecidableEq, Repr

namespace StepError

/-- The failure a step answers with. -/
def failure : StepError → Failure
  | .badInput m => Failure.badInput m
  | .failed e => Failure.ofError e
  | .panic m => Failure.panic m

/-- The library error a continuation fails with: bad input becomes a store error that says it
came from the session. The operations of a continuation read no hex text, so no panic arises
there; one would be reported as bad input. -/
def toStateError : StepError → StateError
  | .badInput m => .store ("driver: " ++ m)
  | .failed e => e
  | .panic m => .store ("driver: " ++ m)

/-- A failure to read input as bad input, or as a panic. -/
def ofReading {α : Type} (r : Reading α) : Except StepError α :=
  r.mapError fun f => if f.isPanic then .panic f.message else .badInput f.message

/-- A library error. -/
def ofExcept {α : Type} (r : Except StateError α) : Except StepError α := r.mapError .failed

end StepError

/-- How the values of one role in a state are typed and written. -/
structure Encoding where
  type : ValueType
  format : Format
  deriving DecidableEq, Repr

namespace Encoding

/-- The bytes of a value. -/
def encode (e : Encoding) (v : Value) : Except StateError Bytes := e.format.encode v

/-- The value that bytes hold, as a document. -/
def decode (e : Encoding) (bs : Bytes) : Except StateError Json :=
  Value.toJson <$> e.format.decode e.type bs

end Encoding

/-- How a response reads back as the result of an operation, written as a document. -/
inductive Reply where
  /-- A write: `null`. -/
  | done (rt : RequestType)
  /-- An optional value: `null`, or `{"some": v}`. -/
  | value (rt : RequestType) (values : Encoding)
  /-- A list of values. -/
  | values (rt : RequestType) (values : Encoding)
  /-- A boolean. -/
  | flag (rt : RequestType)
  /-- A map's entries as `[key, value]` pairs. -/
  | entries (rt : RequestType) (keys values : Encoding)
  /-- A map's keys. -/
  | keys (rt : RequestType) (keys : Encoding)
  /-- A map's values. -/
  | items (rt : RequestType) (values : Encoding)
  /-- The response itself, as a response document. -/
  | raw
  deriving DecidableEq, Repr

namespace Reply

/-- Reads a response back as a result document, reading each value's bytes under its encoding
with `decode`. -/
def readWith (decode : Encoding → Bytes → Except StateError Json) :
    Reply → Response → Except StateError Json
  | .done rt, r => do r.intoDone rt; pure .null
  | .value rt e, r => do
    match ← r.intoValue rt with
    | none => pure .null
    | some bs => pure (Json.mkObject [("some", ← decode e bs)])
  | .values rt e, r => do
    let bss ← r.intoValues rt
    .array <$> bss.mapM (decode e)
  | .flag rt, r => .bool <$> r.intoBool rt
  | .entries rt ke ve, r => do
    let es ← r.intoEntries rt
    .array <$> es.mapM fun (k, v) => do pure (.array [← decode ke k, ← decode ve v])
  | .keys rt ke, r => do
    let es ← r.intoEntries rt
    .array <$> (es.map (·.1)).mapM (decode ke)
  | .items rt ve, r => do
    let es ← r.intoEntries rt
    .array <$> (es.map (·.2)).mapM (decode ve)
  | .raw, r => pure r.toJson

/-- Reads a response back as a result document. -/
def read (reply : Reply) : Response → Except StateError Json := reply.readWith Encoding.decode

end Reply

/-- A typed view of one named state. -/
structure Handle where
  label : String
  state : String
  kind : StateKind
  values : Encoding
  keys : Encoding
  namespaces : NamespaceCodec
  ns : Namespace
  deriving DecidableEq, Repr

/-- What an operation submits, how its response reads back, and whether it blocks. -/
structure Operation where
  requestType : RequestType
  payload : Payload
  reply : Reply
  blocking : Bool
  deriving DecidableEq, Repr

namespace Handle

/-- The word for a handle's kind in the names of its operations. -/
def kindWord : StateKind → String
  | .value => "value"
  | .list => "list"
  | .map => "map"

/-- A handle's description: its kind of state, descriptor and current namespace. Map handles
have none. -/
def describe (h : Handle) : Option String :=
  let base := "KeyedState \x7b descriptor: StateDescriptor \x7b id: StateId(" ++ h.state ++
    "), kind: " ++ h.kind.name ++ " \x7d, namespace: " ++ h.ns.describe ++ " \x7d"
  match h.kind with
  | .value => some ("ValueState \x7b base: " ++ base ++ " \x7d")
  | .list => some ("ListState \x7b base: " ++ base ++ " \x7d")
  | .map => none

/-- Whether an operation name blocks for its result, and the name without `async_`. -/
def splitName (name : String) : String × Bool :=
  if name.startsWith "async_" then (String.ofList (name.toList.drop 6), false) else (name, true)

/-- Argument `k` as a value of the type of `e`. -/
def argValue (e : Encoding) (args : Json) (k : String) : Except StepError Value := do
  let j ← StepError.ofReading (args.need k)
  StepError.ofReading (Query.readValue e.type j)

/-- The argument `values` as values of the type of `e`. -/
def argValues (e : Encoding) (args : Json) : Except StepError (List Value) := do
  let js ← StepError.ofReading (args.needArray "values")
  js.mapM fun j => StepError.ofReading (Query.readValue e.type j)

/-- The argument `entries` as `[key, value]` pairs of the handle's types. -/
def argEntries (h : Handle) (args : Json) : Except StepError (List (Value × Value)) := do
  let js ← match ← StepError.ofReading (args.need "entries") with
    | .array js => pure js
    | _ => .error (.badInput "entries must be an array")
  js.mapM fun j =>
    match j with
    | .array [k, v] => do
      let k ← StepError.ofReading (Query.readValue h.keys.type k)
      let v ← StepError.ofReading (Query.readValue h.values.type v)
      pure (k, v)
    | _ => .error (.badInput "entry must be [key, value]")

/-- The bytes of a value, or the library's error. -/
def write (e : Encoding) (v : Value) : Except StepError Bytes := StepError.ofExcept (e.encode v)

/-- Prepares an operation named `name` with arguments `args`: all arguments are read first,
then written in the handle's formats. -/
def prepare (h : Handle) (name : String) (args : Json) : Except StepError Operation := do
  let (base, blocking) := splitName name
  let op (rt : RequestType) (p : Payload) (reply : Reply) : Operation := ⟨rt, p, reply, blocking⟩
  match h.kind, base with
  | .value, "value" => pure (op .valueGet .empty (.value .valueGet h.values))
  | .value, "update" => do
    let v ← argValue h.values args "value"
    pure (op .valueUpdate (.value (← write h.values v)) (.done .valueUpdate))
  | .list, "get" => pure (op .listGet .empty (.values .listGet h.values))
  | .list, "add" => do
    let v ← argValue h.values args "value"
    pure (op .listAdd (.value (← write h.values v)) (.done .listAdd))
  | .list, "add_all" => do
    let vs ← argValues h.values args
    pure (op .listAddAll (.values (← vs.mapM (write h.values))) (.done .listAddAll))
  | .list, "update" => do
    let vs ← argValues h.values args
    pure (op .listUpdate (.values (← vs.mapM (write h.values))) (.done .listUpdate))
  | .map, "get" => do
    let k ← argValue h.keys args "key"
    pure (op .mapGet (.userKey (← write h.keys k)) (.value .mapGet h.values))
  | .map, "contains" => do
    let k ← argValue h.keys args "key"
    pure (op .mapContains (.userKey (← write h.keys k)) (.flag .mapContains))
  | .map, "put" => do
    let k ← argValue h.keys args "key"
    let v ← argValue h.values args "value"
    let kb ← write h.keys k
    let vb ← write h.values v
    pure (op .mapPut (.entry kb vb) (.done .mapPut))
  | .map, "put_all" => do
    let es ← argEntries h args
    let bs ← es.mapM fun (k, v) => do pure (← write h.keys k, ← write h.values v)
    pure (op .mapPutAll (.entries bs) (.done .mapPutAll))
  | .map, "remove" => do
    let k ← argValue h.keys args "key"
    pure (op .mapRemove (.userKey (← write h.keys k)) (.done .mapRemove))
  | .map, "entries" => pure (op .mapIter .empty (.entries .mapIter h.keys h.values))
  | .map, "keys" => pure (op .mapIter .empty (.keys .mapIter h.keys))
  | .map, "values" => pure (op .mapIter .empty (.items .mapIter h.values))
  | .map, "is_empty" => pure (op .mapIsEmpty .empty (.flag .mapIsEmpty))
  | _, "clear" => pure (op .clear .empty (.done .clear))
  | k, _ => .error (.badInput ("unknown " ++ kindWord k ++ "-state op '" ++ name ++ "'"))

end Handle

end OrderedState
