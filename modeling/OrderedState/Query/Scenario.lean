import OrderedState.Session.Step

/-!
# Scenario queries

A scenario query runs a session script against a fresh handler and store:

```
{"op": "scenario", "handler": "controller" | "direct" | "none",
 "config": TEXT, "states": [DECLARATION...], "steps": [STEP...]}
```

The controller reads its configuration from the JSON text `config` (default `{}`, also when
`config` is not a string); a bad one makes the whole answer its `InvalidConfig` error. A
declaration names a state and its kind, and gives its handle a label (default: the state name),
the type and format of its values, for a map those of its user keys, and its namespaces with
the one it starts in; an optional field that is not a string takes its default. Without a handler a
session has futures only, and may declare no states.

The answer is `{"steps": [ANSWER...]}`, one answer per step.
-/

namespace OrderedState

namespace Query

/-- A state kind by its lower-case name. -/
def readDeclaredKind (name : String) : Reading StateKind :=
  match name with
  | "value" => .ok .value
  | "list" => .ok .list
  | "map" => .ok .map
  | other => Reading.bad ("unknown state kind '" ++ other ++ "'")

/-- A map's key type: one a user key may have. -/
def readKeyType (name : String) : Reading ValueType :=
  match ValueType.ofName? name with
  | some t => if t.isKeyType then .ok t else Reading.bad ("unknown map key type '" ++ name ++ "'")
  | none => Reading.bad ("unknown map key type '" ++ name ++ "'")

/-- A namespace type by name. -/
def readNamespaceType (name : String) : Reading NamespaceType :=
  match NamespaceType.ofName? name with
  | some t => .ok t
  | none => Reading.bad ("unknown namespace type '" ++ name ++ "'")

/-- A declaration's namespaces and the namespace its handle starts in; without `ns`, the void
namespace. The void namespace has one value and no format, so its `ser` and `initial` are not
read; a typed one reads its format before its initial value. -/
def readNamespaces (d : Json) : Reading (NamespaceCodec × Namespace) :=
  match d.field? "ns" with
  | none => .ok (.void, .void)
  | some n => do
    match ← readNamespaceType (n.stringOr "type" "void") with
    | .void => pure (.void, .void)
    | t => do
      let f ← readFormat (n.stringOr "ser" "json")
      let initial := (n.field? "initial").getD .null
      let ns ← (t.ofJson initial).mapError fun m => Failure.badInput ("bad value: " ++ m.message .json)
      pure (.typed t f, ns)

/-- A state declaration as a handle. Its label is the field `h` when there is one, and else its
name, and must be a string; then come its name and kind, for a map the type of its user keys,
the type of its values, the formats, and the namespaces. A type or format that is missing or
not a string takes its default. -/
def readDeclaration (d : Json) : Reading Handle := do
  let label ← match (d.field? "h").orElse fun _ => d.field? "name" with
    | some (.string l) => pure l
    | _ => Reading.bad "state needs a name"
  let state ← d.needString "name"
  let kind ← readDeclaredKind (← d.needString "kind")
  let keyType ← match kind with
    | .map => readKeyType (d.stringOr "key_type" "string")
    | _ => pure .string
  let valueType ← readValueType (d.stringOr "type" "i64")
  let keyFormat ← match kind with
    | .map => readFormat (d.stringOr "key_ser" "json")
    | _ => pure .json
  let values : Encoding := ⟨valueType, ← readFormat (d.stringOr "ser" "json")⟩
  let (namespaces, ns) ← readNamespaces d
  pure { label, state, kind, values, keys := ⟨keyType, keyFormat⟩, namespaces, ns }

/-- The handler a scenario names, built fresh. -/
def readHandler (q : Json) : Reading Handler := do
  match q.stringOr "handler" "controller" with
  | "controller" => do
    let c ← Reading.lift (Config.ofJsonText (q.stringOr "config" "{}"))
    pure (.controller { config := c })
  | "direct" => pure (.direct {})
  | "none" => pure .absent
  | other => Reading.bad ("unknown handler '" ++ other ++ "'")

/-- Runs a scenario: the handler is read first, then the declarations, and the steps last. -/
def scenario (q : Json) : Reading Json := do
  let handler ← readHandler q
  let decls ← match q.field? "states" with
    | none => pure []
    | some _ => q.needList "states"
  match handler with
  | .absent => if decls.isEmpty then pure () else Reading.bad "states need a handler"
  | _ => pure ()
  let handles ← decls.mapM readDeclaration
  let steps ← q.needList "steps"
  let session : Session := handles.foldl Session.withHandle { world := { handler } }
  pure (Json.mkObject [("steps", .array (← session.runAll steps))])

end Query

end OrderedState
