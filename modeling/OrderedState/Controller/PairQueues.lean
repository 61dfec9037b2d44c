import OrderedState.Table
import OrderedState.Store.Basic

/-!
# Per-pair queues

Requests on one (key, state name) pair run one at a time, in submission order. For every pair
with a request issued, the queues hold that request's sequence number and the requests waiting
behind it. A pair with nothing issued has no entry.

* `enqueue` issues a request at once when its pair is idle, and queues it otherwise;
* `release` ends the issued request of a pair and issues the next waiting one, if any.

`waitingCount` is the number of requests waiting behind an issued one; `activePairs` is the
number of pairs with a request issued.
-/

namespace OrderedState

/-- A (key, state name) pair: the unit of ordering. -/
abbrev Pair := Nat × String

/-- The request issued for one pair and those waiting behind it, in sequence order. -/
structure PairQueue where
  issued : Nat
  waiting : List Request
  deriving Repr

/-- The queue of every pair that has a request issued. -/
structure PairQueues where
  queues : Table Pair PairQueue := []
  deriving Repr

namespace PairQueues

/-- Admits a request: it is returned when it may be issued right away, and queued behind its
pair's issued request otherwise. -/
def enqueue (qs : PairQueues) (r : Request) : PairQueues × Option Request :=
  let pair : Pair := (r.key, r.state)
  match qs.queues.get? pair with
  | none => ({ queues := qs.queues.set pair ⟨r.sequence, []⟩ }, some r)
  | some q => ({ queues := qs.queues.set pair { q with waiting := q.waiting ++ [r] } }, none)

/-- Ends the issued request of a pair: the next waiting request is issued and returned, or the
pair's entry goes. -/
def release (qs : PairQueues) (key : Nat) (state : String) : PairQueues × Option Request :=
  let pair : Pair := (key, state)
  match qs.queues.get? pair with
  | none => (qs, none)
  | some q =>
    match q.waiting with
    | [] => ({ queues := qs.queues.erase pair }, none)
    | next :: rest => ({ queues := qs.queues.set pair ⟨next.sequence, rest⟩ }, some next)

/-- The number of requests waiting behind an issued one. -/
def waitingCount (qs : PairQueues) : Nat := qs.queues.foldl (fun n e => n + e.2.waiting.length) 0

/-- The number of pairs with a request issued. -/
def activePairs (qs : PairQueues) : Nat := qs.queues.length

end PairQueues

end OrderedState
