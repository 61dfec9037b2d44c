import OrderedState.Codec.JsonFormat
import OrderedState.Codec.MsgpackFormat
import OrderedState.Error
import OrderedState.Bytes.Hex

/-!
# Wire formats

A state stores its values, user keys and namespaces as bytes in one of two formats, JSON text
or MessagePack. Encoding fails only for a value the format cannot hold (a non-empty `pairMap`
in JSON); decoding fails on bytes that are not a value of the type. The void namespace is
always the empty byte string.
-/

namespace OrderedState

/-- A wire format for values. -/
inductive Format where
  | json | msgpack
  deriving DecidableEq, Repr

namespace Format

/-- The format with a given name. -/
def ofName? : String → Option Format
  | "json" => some .json
  | "msgpack" => some .msgpack
  | _ => none

/-- The bytes of a value. -/
def encode : Format → Value → Except StateError Bytes
  | .json, v => v.encodeJson.mapError .serialization
  | .msgpack, v => .ok v.encodeMsgpack

/-- The value of type `t` that bytes encode. -/
def decode : Format → ValueType → Bytes → Except StateError Value
  | .json, t, bs => (t.decodeJson bs).mapError .deserialization
  | .msgpack, t, bs => (t.decodeMsgpack bs).mapError .deserialization

end Format

/-- How a state's namespaces are typed and stored. -/
inductive NamespaceCodec where
  /-- The void namespace, stored as no bytes. -/
  | void
  /-- String or integer namespaces in a format. -/
  | typed (t : NamespaceType) (f : Format)
  deriving DecidableEq, Repr

namespace NamespaceCodec

/-- The type of the namespaces. -/
def type : NamespaceCodec → NamespaceType
  | .void => .void
  | .typed t _ => t

/-- The bytes of a namespace. -/
def encode : NamespaceCodec → Namespace → Except StateError Bytes
  | .void, _ => .ok []
  | .typed _ f, .string s => f.encode (.string s)
  | .typed _ f, .i64 n => f.encode (.i64 n)
  | .typed _ _, .void => .ok []

end NamespaceCodec

end OrderedState
