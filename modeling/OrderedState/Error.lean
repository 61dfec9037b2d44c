import OrderedState.Request.Basic

/-!
# Errors

Every failure of the library is a `StateError`. Four of them are programming errors, raised
before a request is accepted: a request type on the wrong kind of state, a payload of the wrong
shape, a request with no current key, and an invalid configuration. The others arise while a
request is carried out or its result is read.
-/

namespace OrderedState

/-- A failure of the library. -/
inductive StateError where
  /-- The request type does not address this kind of state. -/
  | kindMismatch (state : String) (kind : StateKind) (requestType : RequestType)
  /-- The payload does not have the shape the request type carries. -/
  | payloadMismatch (requestType : RequestType) (expected got : PayloadShape)
  /-- A request was made with no current key. -/
  | noCurrentKey
  /-- The configuration is refused, with why. -/
  | invalidConfig (text : String)
  /-- The store failed the request, with why. -/
  | store (text : String)
  /-- A value could not be encoded, with why. -/
  | serialization (text : String)
  /-- Bytes could not be decoded, with why. -/
  | deserialization (text : String)
  /-- A response was not of the form its request type gives. -/
  | unexpectedResponse (requestType : RequestType) (got : String)
  /-- The controller takes no more requests. -/
  | closed
  /-- The executor could not be started, with why. -/
  | executor (text : String)
  /-- The request's result can no longer arrive. -/
  | abandoned
  deriving DecidableEq, Repr

namespace StateError

/-- The name of the error's kind. -/
def kindName : StateError → String
  | .kindMismatch .. => "KindMismatch"
  | .payloadMismatch .. => "PayloadMismatch"
  | .noCurrentKey => "NoCurrentKey"
  | .invalidConfig _ => "InvalidConfig"
  | .store _ => "Store"
  | .serialization _ => "Serialization"
  | .deserialization _ => "Deserialization"
  | .unexpectedResponse .. => "UnexpectedResponse"
  | .closed => "Closed"
  | .executor _ => "Executor"
  | .abandoned => "Abandoned"

/-- The error's text. -/
def message : StateError → String
  | .kindMismatch state kind rt =>
    "Request " ++ rt.name ++ " is not valid for " ++ kind.name ++ " state '" ++ state ++ "'"
  | .payloadMismatch rt expected got =>
    "Request " ++ rt.name ++ " expects a " ++ expected.name ++ " payload, got " ++ got.name
  | .noCurrentKey => "No current key set for state request"
  | .invalidConfig s => "Invalid configuration: " ++ s
  | .store s => "Store error: " ++ s
  | .serialization s => "Serialization error: " ++ s
  | .deserialization s => "Deserialization error: " ++ s
  | .unexpectedResponse rt got => "Unexpected response for " ++ rt.name ++ ": " ++ got
  | .closed => "Execution controller is closed"
  | .executor s => "Failed to start state executor: " ++ s
  | .abandoned => "Request was abandoned before completion"

/-- Whether the error is a programming error, raised before a request is accepted. -/
def isProgrammingError : StateError → Bool
  | .kindMismatch .. | .payloadMismatch .. | .noCurrentKey | .invalidConfig _ => true
  | _ => false

end StateError

end OrderedState
