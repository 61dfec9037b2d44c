import OrderedState.Table
import OrderedState.Store.Basic

/-!
# Key ownership by records

A record is the processing of one input element: it starts when the current key is set and
lasts until its last request, follow-ups from its continuations included, completes. One record
at a time works on a key. The first record to submit a request for a key owns it until its last
pending request completes; requests of later records on that key are parked, and passed on
record by record as owners finish.

* `claim` counts a request of a record and returns it when the record owns its key, parking it
  otherwise;
* `complete` counts one completion of a record; at its last one the key passes to the record of
  the first parked request, and that record's requests at the front of the parked line are
  returned, in order.
-/

namespace OrderedState

/-- A record's key and how many of its requests have not completed. -/
structure RecordEntry where
  key : Nat
  pending : Nat
  deriving Repr

/-- The record that owns a key, and the requests of later records on it, in submission order. -/
structure KeyOwner where
  record : Nat
  parked : List (Nat × Request)
  deriving Repr

/-- Records with requests pending, and the owner of each busy key. -/
structure Ownership where
  records : Table Nat RecordEntry := []
  owners : Table Nat KeyOwner := []
  deriving Repr

namespace Ownership

/-- Counts a new request of `record`: it is returned when the record owns the request's key, and
parked otherwise. A record's key is the key of its first request. -/
def claim (o : Ownership) (record : Nat) (r : Request) : Ownership × Option Request :=
  let entry := (o.records.get? record).getD ⟨r.key, 0⟩
  let records := o.records.set record { entry with pending := entry.pending + 1 }
  match o.owners.get? r.key with
  | none => ({ records, owners := o.owners.set r.key ⟨record, []⟩ }, some r)
  | some owner =>
    if owner.record = record then ({ o with records }, some r)
    else ({ records, owners := o.owners.set r.key { owner with parked := owner.parked ++ [(record, r)] } },
      none)

/-- Counts one completed request of `record`. After its last one the record is gone, and its
key passes to the next parked record, whose requests at the front of the line are returned; with
nothing parked the key is free. -/
def complete (o : Ownership) (record : Nat) : Ownership × List Request :=
  match o.records.get? record with
  | none => (o, [])
  | some e =>
    if 1 < e.pending then
      ({ o with records := o.records.set record { e with pending := e.pending - 1 } }, [])
    else
      let records := o.records.erase record
      match o.owners.get? e.key with
      | none => ({ o with records }, [])
      | some owner =>
        match owner.parked with
        | [] => ({ records, owners := o.owners.erase e.key }, [])
        | (next, _) :: _ =>
          let released := owner.parked.takeWhile fun p => p.1 = next
          let rest := owner.parked.dropWhile fun p => p.1 = next
          ({ records, owners := o.owners.set e.key ⟨next, rest⟩ }, released.map (·.2))

/-- The number of requests parked behind an earlier record on their key. -/
def parkedCount (o : Ownership) : Nat := o.owners.foldl (fun n e => n + e.2.parked.length) 0

/-- The number of keys owned by a record with requests pending. -/
def busyKeys (o : Ownership) : Nat := o.owners.length

end Ownership

end OrderedState
