import OrderedState.Request.Payload

/-!
# The in-memory store

The store holds, per address (state name, key, namespace bytes), a value, a non-empty list of
values, or a non-empty map from user-key bytes to value bytes, kept in the unsigned byte-wise
order of its keys. `Store.execute` carries out one request at its address and counts it,
whether it succeeds or not.

* `Clear` removes whatever the address holds.
* Reads of an empty address see nothing: no value, an empty list, an empty map.
* `ListAdd`/`ListAddAll` append one item (a `Value` payload) or many (`Values`); `MapPut`/
  `MapPutAll` insert one entry or many, a later one replacing an earlier one with its key. With
  nothing to add they change nothing and check nothing.
* `ListUpdate` replaces the list, and an empty replacement removes it; `MapRemove` removes a
  key, and the map with its last key.
* A payload of the wrong shape is reported before the contents are looked at (the reads
  `ValueGet`, `ListGet`, `MapIter` and `MapIsEmpty` ignore their payload), and contents of the
  wrong kind are reported without change. Only `Clear` never looks at the contents.
-/

namespace OrderedState

/-- Unsigned byte-wise order on byte strings, a proper prefix first. -/
def bytesLt : Bytes → Bytes → Bool
  | [], [] => false
  | [], _ :: _ => true
  | _ :: _, [] => false
  | a :: as, b :: bs => if a < b then true else if b < a then false else bytesLt as bs

/-- A map from byte strings to byte strings as its entries, sorted by key with each key once. -/
abbrev ByteMap := List (Bytes × Bytes)

namespace ByteMap

/-- Inserts an entry, replacing the value of an equal key. -/
def insert (k v : Bytes) : ByteMap → ByteMap
  | [] => [(k, v)]
  | (k', v') :: rest =>
    if bytesLt k k' then (k, v) :: (k', v') :: rest
    else if k = k' then (k, v) :: rest
    else (k', v') :: insert k v rest

/-- Inserts entries in order, so a later one replaces an earlier one with its key. -/
def insertAll (m : ByteMap) (es : List (Bytes × Bytes)) : ByteMap :=
  es.foldl (fun acc (k, v) => insert k v acc) m

/-- The value of a key. -/
def get? (m : ByteMap) (k : Bytes) : Option Bytes := m.lookup k

/-- Removes a key. -/
def erase (m : ByteMap) (k : Bytes) : ByteMap := m.filter (·.1 ≠ k)

end ByteMap

/-- What an address holds. -/
inductive Contents where
  | value (v : Bytes)
  | list (items : List Bytes)
  | map (m : ByteMap)
  deriving DecidableEq, Repr

/-- The word for what an address holds, in error texts. -/
def Contents.describe : Contents → String
  | .value _ => "value"
  | .list _ => "list"
  | .map _ => "map"

/-- Where state lives: a state name, a key and the namespace bytes. -/
structure Address where
  state : String
  key : Nat
  ns : Bytes
  deriving DecidableEq, Repr

/-- A request as the store sees it: what to do, and where. -/
structure Request where
  id : Nat
  key : Nat
  state : String
  kind : StateKind
  ns : Bytes
  requestType : RequestType
  payload : Payload
  sequence : Nat
  deriving DecidableEq, Repr

/-- The address a request works on. -/
def Request.address (r : Request) : Address := ⟨r.state, r.key, r.ns⟩

/-- The store's contents and how many requests it has carried out. -/
structure Store where
  entries : List (Address × Contents) := []
  executed : Nat := 0
  deriving Repr

namespace Store

/-- What an address holds. -/
def get? (s : Store) (a : Address) : Option Contents := s.entries.lookup a

/-- Sets what an address holds. -/
def set (s : Store) (a : Address) (c : Contents) : Store :=
  { s with entries := (a, c) :: s.entries.filter (·.1 ≠ a) }

/-- Empties an address. -/
def erase (s : Store) (a : Address) : Store :=
  { s with entries := s.entries.filter (·.1 ≠ a) }

/-- The number of addresses holding something. -/
def entryCount (s : Store) : Nat := s.entries.length

/-- The error for a payload of the wrong shape. -/
def malformed (r : Request) : StateError :=
  .store ("malformed " ++ r.payload.shape.name ++ " payload for " ++ r.requestType.name ++
    " on state '" ++ r.state ++ "'")

/-- The error for contents of the wrong kind. -/
def wrongContents (r : Request) (expected : String) (found : Contents) : StateError :=
  .store ("state '" ++ r.state ++ "' holds a " ++ found.describe ++ " where a " ++ expected ++
    " was expected")

/-- Carries out a request without counting it. -/
def apply (s : Store) (r : Request) : Except StateError (Response × Store) :=
  let a := r.address
  match r.requestType with
  | .clear => .ok (.done, s.erase a)
  | .valueGet =>
    match s.get? a with
    | none => .ok (.value none, s)
    | some (.value v) => .ok (.value (some v), s)
    | some c => .error (wrongContents r "value" c)
  | .valueUpdate =>
    match r.payload with
    | .value v =>
      match s.get? a with
      | none | some (.value _) => .ok (.done, s.set a (.value v))
      | some c => .error (wrongContents r "value" c)
    | _ => .error (malformed r)
  | .listGet =>
    match s.get? a with
    | none => .ok (.values [], s)
    | some (.list items) => .ok (.values items, s)
    | some c => .error (wrongContents r "list" c)
  | .listAdd | .listAddAll =>
    let items? := match r.payload with
      | .value v => some [v]
      | .values vs => some vs
      | _ => none
    match items? with
    | none => .error (malformed r)
    | some [] => .ok (.done, s)
    | some items =>
      match s.get? a with
      | none => .ok (.done, s.set a (.list items))
      | some (.list old) => .ok (.done, s.set a (.list (old ++ items)))
      | some c => .error (wrongContents r "list" c)
  | .listUpdate =>
    match r.payload with
    | .values items =>
      match s.get? a with
      | some (.value v) => .error (wrongContents r "list" (.value v))
      | some (.map m) => .error (wrongContents r "list" (.map m))
      | _ => if items.isEmpty then .ok (.done, s.erase a) else .ok (.done, s.set a (.list items))
    | _ => .error (malformed r)
  | .mapGet | .mapContains =>
    match r.payload with
    | .userKey k =>
      let found? : Except StateError (Option Bytes) := match s.get? a with
        | none => .ok none
        | some (.map m) => .ok (m.get? k)
        | some c => .error (wrongContents r "map" c)
      found?.map fun v =>
        if r.requestType = .mapGet then (.value v, s) else (.bool v.isSome, s)
    | _ => .error (malformed r)
  | .mapPut | .mapPutAll =>
    let entries? := match r.payload with
      | .entry k v => some [(k, v)]
      | .entries es => some es
      | _ => none
    match entries? with
    | none => .error (malformed r)
    | some [] => .ok (.done, s)
    | some es =>
      match s.get? a with
      | none => .ok (.done, s.set a (.map (ByteMap.insertAll [] es)))
      | some (.map m) => .ok (.done, s.set a (.map (m.insertAll es)))
      | some c => .error (wrongContents r "map" c)
  | .mapRemove =>
    match r.payload with
    | .userKey k =>
      match s.get? a with
      | none => .ok (.done, s)
      | some (.map m) =>
        let m' := m.erase k
        if m'.isEmpty then .ok (.done, s.erase a) else .ok (.done, s.set a (.map m'))
      | some c => .error (wrongContents r "map" c)
    | _ => .error (malformed r)
  | .mapIter =>
    match s.get? a with
    | none => .ok (.entries [], s)
    | some (.map m) => .ok (.entries m, s)
    | some c => .error (wrongContents r "map" c)
  | .mapIsEmpty =>
    match s.get? a with
    | none => .ok (.bool true, s)
    | some (.map m) => .ok (.bool m.isEmpty, s)
    | some c => .error (wrongContents r "map" c)

/-- Carries out a request and counts it; a failed request leaves the contents as they were. -/
def execute (s : Store) (r : Request) : Except StateError Response × Store :=
  let counted := { s with executed := s.executed + 1 }
  match counted.apply r with
  | .ok (resp, s') => (.ok resp, s')
  | .error e => (.error e, counted)

/-- Carries out requests in order, one result each. -/
def executeBatch (s : Store) : List Request → List (Except StateError Response) × Store
  | [] => ([], s)
  | r :: rest =>
    let (res, s') := s.execute r
    let (results, s'') := s'.executeBatch rest
    (res :: results, s'')

end Store

end OrderedState
