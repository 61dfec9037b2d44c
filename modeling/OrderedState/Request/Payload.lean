import OrderedState.Error
import OrderedState.Bytes.Hex

/-!
# Payloads and responses

A request carries a payload of bytes (encoded values and user keys) and is answered by a
response. `RequestType.validate` checks a request against the state it addresses: the kind
first, then the payload's shape. A response is read back by the form its request type gives
(`Response.intoValue` and its siblings); another form is an `unexpectedResponse` that names
the form received.
-/

namespace OrderedState

/-- The bytes a request carries. -/
inductive Payload where
  | empty
  | value (v : Bytes)
  | values (vs : List Bytes)
  | userKey (k : Bytes)
  | entry (k v : Bytes)
  | entries (es : List (Bytes × Bytes))
  deriving DecidableEq, Repr

/-- The shape of a payload. -/
def Payload.shape : Payload → PayloadShape
  | .empty => .empty
  | .value _ => .value
  | .values _ => .values
  | .userKey _ => .userKey
  | .entry .. => .entry
  | .entries _ => .entries

/-- Checks a request type and payload against a state: the kind must fit (`Clear` fits
every kind), then the payload must have the request type's shape. -/
def RequestType.validate (rt : RequestType) (state : String) (kind : StateKind)
    (p : Payload) : Except StateError Unit :=
  match rt.kind? with
  | some k =>
    if k ≠ kind then .error (.kindMismatch state kind rt)
    else if rt.shape ≠ p.shape then .error (.payloadMismatch rt rt.shape p.shape)
    else .ok ()
  | none =>
    if rt.shape ≠ p.shape then .error (.payloadMismatch rt rt.shape p.shape) else .ok ()

/-- The answer to a request. -/
inductive Response where
  | done
  | value (v : Option Bytes)
  | values (vs : List Bytes)
  | bool (b : Bool)
  | entries (es : List (Bytes × Bytes))
  deriving DecidableEq, Repr

namespace Response

/-- The name of a response's form. -/
def formName : Response → String
  | .done => "done"
  | .value _ => "value"
  | .values _ => "values"
  | .bool _ => "bool"
  | .entries _ => "entries"

/-- The error for a response of the wrong form. -/
def unexpected (r : Response) (rt : RequestType) : StateError := .unexpectedResponse rt r.formName

/-- A response that must be `done`. -/
def intoDone (r : Response) (rt : RequestType) : Except StateError Unit :=
  match r with
  | .done => .ok ()
  | _ => .error (r.unexpected rt)

/-- A response that must be a value. -/
def intoValue (r : Response) (rt : RequestType) : Except StateError (Option Bytes) :=
  match r with
  | .value v => .ok v
  | _ => .error (r.unexpected rt)

/-- A response that must be values. -/
def intoValues (r : Response) (rt : RequestType) : Except StateError (List Bytes) :=
  match r with
  | .values vs => .ok vs
  | _ => .error (r.unexpected rt)

/-- A response that must be a boolean. -/
def intoBool (r : Response) (rt : RequestType) : Except StateError Bool :=
  match r with
  | .bool b => .ok b
  | _ => .error (r.unexpected rt)

/-- A response that must be entries. -/
def intoEntries (r : Response) (rt : RequestType) : Except StateError (List (Bytes × Bytes)) :=
  match r with
  | .entries es => .ok es
  | _ => .error (r.unexpected rt)

end Response

end OrderedState
