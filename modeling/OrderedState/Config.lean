import OrderedState.Error
import OrderedState.Codec.JsonFormat

/-!
# Controller configuration

How the controller batches and bounds its work: a batch is sent once it holds `batchSize`
requests or its oldest request has waited `bufferTimeoutMs` milliseconds; at most
`maxInFlight` requests are outstanding; `workerThreads` threads execute batches.

A configuration is read from a JSON object (or an array of its fields in order); a missing
field takes its default, an unknown one is skipped, a field given twice is refused. It is then
validated: the batch size, the in-flight bound and the thread count must be positive, checked
in that order.
-/

namespace OrderedState

/-- The controller's settings. -/
structure Config where
  batchSize : Nat := 1000
  bufferTimeoutMs : Nat := 1000
  maxInFlight : Nat := 6000
  workerThreads : Nat := 4
  threadNamePrefix : String := "state-executor"
  deriving DecidableEq, Repr

namespace Config

/-- The checks a configuration must pass, the first failing one reported. -/
def validate (c : Config) : Except StateError Unit :=
  if c.batchSize = 0 then .error (.invalidConfig "batch_size must be positive")
  else if c.maxInFlight = 0 then .error (.invalidConfig "max_in_flight must be positive")
  else if c.workerThreads = 0 then .error (.invalidConfig "worker_threads must be positive")
  else .ok ()

/-- A configuration that passes `validate`. -/
def Valid (c : Config) : Prop := 0 < c.batchSize ∧ 0 < c.maxInFlight ∧ 0 < c.workerThreads

theorem validate_eq_ok_iff (c : Config) : c.validate = .ok () ↔ c.Valid := by
  unfold validate Valid
  -- the checks in order: each failing one reports an error, and the field is zero
  by_cases hb : c.batchSize = 0
  · rw [if_pos hb]
    simp [hb]
  rw [if_neg hb]
  by_cases hm : c.maxInFlight = 0
  · rw [if_pos hm]
    simp [hm]
  rw [if_neg hm]
  by_cases hw : c.workerThreads = 0
  · rw [if_pos hw]
    simp [hw]
  rw [if_neg hw]
  exact ⟨fun _ => ⟨Nat.pos_of_ne_zero hb, Nat.pos_of_ne_zero hm, Nat.pos_of_ne_zero hw⟩,
    fun _ => rfl⟩

/-- The fields of a configuration, in order. -/
def fieldNames : List String :=
  ["batch_size", "buffer_timeout_ms", "max_in_flight", "worker_threads", "thread_name_prefix"]

/-- Sets field `i` from the text at the reader. -/
def readField (fuel : Nat) (c : Config) : Nat → JsonReader Config
  | 0 => (fun n => { c with batchSize := n.toNat }) <$>
    JsonReader.readNumber fuel "usize" IntTarget.usize.accept
  | 1 => (fun n => { c with bufferTimeoutMs := n.toNat }) <$>
    JsonReader.readNumber fuel "u64" IntTarget.u64.accept
  | 2 => (fun n => { c with maxInFlight := n.toNat }) <$>
    JsonReader.readNumber fuel "usize" IntTarget.usize.accept
  | 3 => (fun n => { c with workerThreads := n.toNat }) <$>
    JsonReader.readNumber fuel "usize" IntTarget.usize.accept
  | _ => (fun s => { c with threadNamePrefix := s }) <$> JsonReader.readStr fuel

/-- Fields given as an array: up to five, in order. -/
def readItems (fuel : Nat) (c : Config) (i : Nat) : JsonReader Config := do
  match fuel with
  | 0 => JsonReader.fail .outOfFuel
  | fuel + 1 =>
    if i ≥ 5 then pure c
    else if ← JsonReader.hasNextElement (i = 0) then
      let c' ← readField fuel c i
      readItems fuel c' (i + 1)
    else pure c

/-- Fields given as an object; `seen` are those already set. -/
def readFields (fuel : Nat) (c : Config) (first : Bool) (seen : List Nat) :
    JsonReader Config := do
  match fuel with
  | 0 => JsonReader.fail .outOfFuel
  | fuel + 1 =>
    match ← JsonReader.nextKey fuel first with
    | none => pure c
    | some k =>
      match fieldNames.idxOf? k with
      | some i =>
        if i ∈ seen then JsonReader.mismatch (.duplicateField k)
        JsonReader.colon
        let c' ← readField fuel c i
        readFields fuel c' false (i :: seen)
      | none =>
        JsonReader.colon
        JsonReader.skipValue fuel
        readFields fuel c false seen

/-- Reads a configuration from JSON text and validates it. -/
def ofJsonText (text : String) : Except StateError Config := do
  let input := text.toUTF8.toList
  let read (fuel : Nat) : JsonReader Config :=
    JsonReader.readRecord fuel "struct ControllerConfig" (readItems fuel {} 0)
      (readFields fuel {} true [])
  let c ← (JsonReader.runAll read input).mapError fun e => .invalidConfig (e.message input)
  c.validate
  pure c

end Config

end OrderedState
