/-!
# Request vocabulary

A state is keyed state of one of three kinds: a single value, a list, or a map from user
keys to values. A request names what to do with the state of the current key; each request
type belongs to one kind (`Clear` to all), is a read or a write, and carries a payload of
one fixed shape.
-/

namespace OrderedState

/-- The three kinds of state. -/
inductive StateKind where
  | value | list | map
  deriving DecidableEq, Repr

namespace StateKind

/-- The name of a kind in texts: `Value`, `List`, `Map`. -/
def name : StateKind → String
  | .value => "Value"
  | .list => "List"
  | .map => "Map"

/-- The kind with a given name. -/
def ofName? : String → Option StateKind
  | "Value" => some .value
  | "List" => some .list
  | "Map" => some .map
  | _ => none

end StateKind

/-- The shapes of request payloads. -/
inductive PayloadShape where
  | empty | value | values | userKey | entry | entries
  deriving DecidableEq, Repr

namespace PayloadShape

/-- The name of a shape in texts. -/
def name : PayloadShape → String
  | .empty => "Empty"
  | .value => "Value"
  | .values => "Values"
  | .userKey => "UserKey"
  | .entry => "Entry"
  | .entries => "Entries"

/-- The shape with a given name. -/
def ofName? : String → Option PayloadShape
  | "Empty" => some .empty
  | "Value" => some .value
  | "Values" => some .values
  | "UserKey" => some .userKey
  | "Entry" => some .entry
  | "Entries" => some .entries
  | _ => none

end PayloadShape

/-- What a request asks of the state of the current key. -/
inductive RequestType where
  | clear
  | valueGet | valueUpdate
  | listGet | listAdd | listAddAll | listUpdate
  | mapGet | mapContains | mapPut | mapPutAll | mapRemove | mapIter | mapIsEmpty
  deriving DecidableEq, Repr

namespace RequestType

/-- Every request type, in declaration order. -/
def all : List RequestType :=
  [.clear, .valueGet, .valueUpdate, .listGet, .listAdd, .listAddAll, .listUpdate, .mapGet,
    .mapContains, .mapPut, .mapPutAll, .mapRemove, .mapIter, .mapIsEmpty]

/-- The name of a request type in texts. -/
def name : RequestType → String
  | .clear => "Clear"
  | .valueGet => "ValueGet"
  | .valueUpdate => "ValueUpdate"
  | .listGet => "ListGet"
  | .listAdd => "ListAdd"
  | .listAddAll => "ListAddAll"
  | .listUpdate => "ListUpdate"
  | .mapGet => "MapGet"
  | .mapContains => "MapContains"
  | .mapPut => "MapPut"
  | .mapPutAll => "MapPutAll"
  | .mapRemove => "MapRemove"
  | .mapIter => "MapIter"
  | .mapIsEmpty => "MapIsEmpty"

/-- The request type with a given name. -/
def ofName? (s : String) : Option RequestType := all.find? (·.name == s)

/-- The kind of state a request type addresses; `Clear` addresses every kind. -/
def kind? : RequestType → Option StateKind
  | .clear => none
  | .valueGet | .valueUpdate => some .value
  | .listGet | .listAdd | .listAddAll | .listUpdate => some .list
  | .mapGet | .mapContains | .mapPut | .mapPutAll | .mapRemove | .mapIter | .mapIsEmpty =>
    some .map

/-- Whether a request type only reads. -/
def isReadOnly : RequestType → Bool
  | .valueGet | .listGet | .mapGet | .mapContains | .mapIter | .mapIsEmpty => true
  | _ => false

/-- The shape of the payload a request type carries. -/
def shape : RequestType → PayloadShape
  | .clear | .valueGet | .listGet | .mapIter | .mapIsEmpty => .empty
  | .valueUpdate | .listAdd => .value
  | .listAddAll | .listUpdate => .values
  | .mapGet | .mapContains | .mapRemove => .userKey
  | .mapPut => .entry
  | .mapPutAll => .entries

end RequestType

end OrderedState
