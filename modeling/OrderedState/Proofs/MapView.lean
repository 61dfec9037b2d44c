import OrderedState.Proofs.Refinement
import OrderedState.Proofs.StoreHistory
import Mathlib.Data.Set.Function

/-!
# A map state observes a map ordered by encoded key

A map state stores its entries under the encodings of its user keys and values, and reads
them back through the same encodings. `MapWrite` is a write in user terms, and
`MapWrite.reference` the map a sequence of writes leaves: the last write of a key wins, a
later entry of one batch over an earlier one, a removal deletes the key and a clear empties the
map.

The encodings are those of a `Codec`, any codec: the theory assumes of it only that the key
encoding tells the written keys apart and that keys and values written read back as themselves.
The library's own JSON and MessagePack codec is `Codec.formats`.

`Encodes` is the invariant that ties the two: the entries the store shows at the state's
address are the reference map's entries, each written by the codec. Every write
keeps it (`Encodes.put`, `Encodes.putAll`, `Encodes.remove`), as long as the key encoding
tells the written keys apart. The views are then read off it: an iteration lists the
reference map's entries in ascending byte order of their encoded keys, and a lookup gives the
reference value.

Main statement: `map_views_follow_reference`, for the direct handler and for the controller
once every request is answered.
-/

namespace OrderedState

/-! ## Codecs -/

/-- How a map state writes user keys and values and reads them back: the bytes of a value under
an encoding, and the document that bytes under an encoding read back as. The library's own is
`Codec.formats`, each encoding's wire format; the theory below holds of every codec, under the
assumptions each theorem names. -/
structure Codec where
  encode : Encoding → Value → Except StateError Bytes
  decode : Encoding → Bytes → Except StateError Json

namespace Codec

/-- The library's codec: JSON or MessagePack, as the encoding says. -/
def formats : Codec := ⟨Encoding.encode, Encoding.decode⟩

/-- A value's bytes, as an operation's argument. -/
def write (C : Codec) (e : Encoding) (v : Value) : Except StepError Bytes :=
  StepError.ofExcept (C.encode e v)

end Codec

/-! ## Writes in user terms, and the map they leave -/

/-- A write to a map state, in user keys and values. -/
inductive MapWrite where
  | put (k v : Value)
  | putAll (es : List (Value × Value))
  | remove (k : Value)
  | clear

namespace MapWrite

open Classical in
/-- The reference map after one write. -/
noncomputable def apply (m : Value → Option Value) : MapWrite → Value → Option Value
  | .put k v => Function.update m k (some v)
  | .putAll es => es.foldl (fun m e => Function.update m e.1 (some e.2)) m
  | .remove k => Function.update m k none
  | .clear => fun _ => none

/-- The reference map a sequence of writes leaves, from the empty map. -/
noncomputable def reference (ws : List MapWrite) : Value → Option Value :=
  ws.foldl apply fun _ => none

/-- The user keys a write names. -/
def keys : MapWrite → List Value
  | .put k _ => [k]
  | .putAll es => es.map (·.1)
  | .remove k => [k]
  | .clear => []

/-- The values a write stores. -/
def values : MapWrite → List Value
  | .put _ v => [v]
  | .putAll es => es.map (·.2)
  | .remove _ | .clear => []

end MapWrite

namespace Handle

/-- The operation a map handle makes for a write: the user keys and values written in the
handle's formats, as `put`, `put_all`, `remove` and `clear` write them. -/
def mapWriteOp (h : Handle) (C : Codec) : MapWrite → Except StepError Operation
  | .put k v => do
    let kb ← C.write h.keys k
    let vb ← C.write h.values v
    pure ⟨.mapPut, .entry kb vb, .done .mapPut, true⟩
  | .putAll es => do
    let bs ← es.mapM fun (k, v) => do pure (← C.write h.keys k, ← C.write h.values v)
    pure ⟨.mapPutAll, .entries bs, .done .mapPutAll, true⟩
  | .remove k => do
    pure ⟨.mapRemove, .userKey (← C.write h.keys k), .done .mapRemove, true⟩
  | .clear => pure ⟨.clear, .empty, .done .clear, true⟩

/-- What the processing thread submits for an operation of the handle in namespace `ns`. -/
def submission (h : Handle) (ns : Bytes) (op : Operation) : Op :=
  .submit h.state h.kind op.requestType ns op.payload

end Handle

/-! ## Reads and what they show -/

/-- A read of a map state. -/
inductive MapRead where
  | entries
  | keys
  | values
  | get (k : Value)
  | contains (k : Value)
  | isEmpty

namespace MapRead

/-- The user key a read looks up. -/
def key? : MapRead → Option Value
  | .get k | .contains k => some k
  | _ => none

/-- What a read shows of a map listed as `L`, whose lookup is `ref`: the entries as
`[key, value]` pairs, the keys, the values, the value of a key as `null` or `{"some": v}`,
whether a key has a value, and whether the map is empty. -/
def view (L : List (Value × Value)) (ref : Value → Option Value) : MapRead → Json
  | .entries => .array (L.map fun e => .array [e.1.toJson, e.2.toJson])
  | .keys => .array (L.map fun e => e.1.toJson)
  | .values => .array (L.map fun e => e.2.toJson)
  | .get k =>
    match ref k with
    | none => .null
    | some v => Json.mkObject [("some", v.toJson)]
  | .contains k => .bool (ref k).isSome
  | .isEmpty => .bool L.isEmpty

end MapRead

namespace Handle

/-- The operation a map handle makes for a read, as `entries`, `keys`, `values`, `get`,
`contains` and `is_empty` make it. -/
def mapReadOp (h : Handle) (C : Codec) : MapRead → Except StepError Operation
  | .entries => pure ⟨.mapIter, .empty, .entries .mapIter h.keys h.values, true⟩
  | .keys => pure ⟨.mapIter, .empty, .keys .mapIter h.keys, true⟩
  | .values => pure ⟨.mapIter, .empty, .items .mapIter h.values, true⟩
  | .get k => do pure ⟨.mapGet, .userKey (← C.write h.keys k), .value .mapGet h.values, true⟩
  | .contains k => do
    pure ⟨.mapContains, .userKey (← C.write h.keys k), .flag .mapContains, true⟩
  | .isEmpty => pure ⟨.mapIsEmpty, .empty, .flag .mapIsEmpty, true⟩

end Handle

/-- Bytes written for `x` under `e` read back as `x`. -/
def Codec.RoundTrips (C : Codec) (e : Encoding) (x : Value) : Prop :=
  ∃ b, C.encode e x = .ok b ∧ C.decode e b = .ok x.toJson

/-! ## The stored entries encode the reference map -/

/-- The entries `E` a map address shows encode the map `ref`: every user key with a value in
`ref` is one of `K` and its value one of `V`, and `E` gives an encoded key exactly the encoded
value of a user key written so. -/
structure Encodes (C : Codec) (h : Handle) (K V : List Value) (ref : Value → Option Value)
    (E : Bytes → Option Bytes) : Prop where
  support : ∀ k v, ref k = some v → k ∈ K ∧ v ∈ V
  entry : ∀ kb vb, E kb = some vb ↔
    ∃ k v, C.encode h.keys k = .ok kb ∧ ref k = some v ∧ C.encode h.values v = .ok vb

namespace Encodes

open Classical

variable {C : Codec} {h : Handle} {K V : List Value} {ref : Value → Option Value} {E : Bytes → Option Bytes}

theorem empty : Encodes C h K V (fun _ => none) (fun _ => none) where
  support _ _ h := by cases h
  entry _ _ := by simp

/-- Away from the encoding of `k`, changing `k` in the reference map changes no entry. -/
theorem exists_update_ne {k : Value} {o : Option Value} {kb x : Bytes}
    (hkb : C.encode h.keys k = .ok kb) (hx : x ≠ kb) (P : Value → Prop) :
    (∃ k' v, C.encode h.keys k' = .ok x ∧ Function.update ref k o k' = some v ∧ P v) ↔
      ∃ k' v, C.encode h.keys k' = .ok x ∧ ref k' = some v ∧ P v := by
  have hne : ∀ k', C.encode h.keys k' = .ok x → k' ≠ k := by
    rintro k' hk' rfl
    rw [hkb] at hk'
    exact hx (Except.ok.inj hk').symm
  constructor
  · rintro ⟨k', v, hk', hv, hp⟩
    exact ⟨k', v, hk', by rwa [Function.update_of_ne (hne k' hk')] at hv, hp⟩
  · rintro ⟨k', v, hk', hv, hp⟩
    exact ⟨k', v, hk', by rwa [Function.update_of_ne (hne k' hk')], hp⟩

/-- A key of `K` encoded like `k` is `k`, so after changing `k` its value is the new one. -/
theorem eq_of_update (he : Encodes C h K V ref E) (hinj : Set.InjOn (C.encode h.keys) {k | k ∈ K})
    {k k' v : Value} {o : Option Value} {kb : Bytes} (hk : k ∈ K)
    (hkb : C.encode h.keys k = .ok kb) (hk'b : C.encode h.keys k' = .ok kb)
    (hv : Function.update ref k o k' = some v) : k' = k ∧ o = some v := by
  by_cases hkk : k' = k
  · subst hkk
    exact ⟨rfl, by rwa [Function.update_self] at hv⟩
  · rw [Function.update_of_ne hkk] at hv
    exact absurd (hinj (he.support k' v hv).1 hk (hk'b.trans hkb.symm)) hkk

/-- Putting a user key of `K` with a value of `V` puts the encoded entry, when the keys of `K`
have distinct encodings. -/
theorem put (he : Encodes C h K V ref E) (hinj : Set.InjOn (C.encode h.keys) {k | k ∈ K})
    {k v : Value} {kb vb : Bytes} (hk : k ∈ K) (hv : v ∈ V)
    (hkb : C.encode h.keys k = .ok kb) (hvb : C.encode h.values v = .ok vb) :
    Encodes C h K V (Function.update ref k (some v)) (Function.update E kb (some vb)) where
  support k' v' hk' := by
    by_cases hkk : k' = k
    · subst hkk
      simp only [Function.update_self, Option.some.injEq] at hk'
      exact ⟨hk, hk' ▸ hv⟩
    · rw [Function.update_of_ne hkk] at hk'
      exact he.support k' v' hk'
  entry x w := by
    by_cases hx : x = kb
    · subst hx
      simp only [Function.update_self, Option.some.injEq]
      constructor
      · rintro rfl
        exact ⟨k, v, hkb, by simp, hvb⟩
      · rintro ⟨k', v', hk'b, hk'v, hv'b⟩
        obtain ⟨rfl, hvv⟩ := he.eq_of_update hinj hk hkb hk'b hk'v
        cases hvv
        rw [hvb] at hv'b
        exact Except.ok.inj hv'b
    · rw [Function.update_of_ne hx, he.entry, exists_update_ne hkb hx]

/-- Removing a user key of `K` removes its encoded entry. -/
theorem remove (he : Encodes C h K V ref E) (hinj : Set.InjOn (C.encode h.keys) {k | k ∈ K})
    {k : Value} {kb : Bytes} (hk : k ∈ K) (hkb : C.encode h.keys k = .ok kb) :
    Encodes C h K V (Function.update ref k none) (Function.update E kb none) where
  support k' v' hk' := by
    by_cases hkk : k' = k
    · subst hkk
      simp at hk'
    · rw [Function.update_of_ne hkk] at hk'
      exact he.support k' v' hk'
  entry x w := by
    by_cases hx : x = kb
    · subst hx
      simp only [Function.update_self, reduceCtorEq, false_iff]
      rintro ⟨k', v', hk'b, hk'v, -⟩
      cases (he.eq_of_update hinj hk hkb hk'b hk'v).2
    · rw [Function.update_of_ne hx, he.entry, exists_update_ne hkb hx]

/-- Putting a batch of entries puts them one after another. -/
theorem putAll (he : Encodes C h K V ref E) (hinj : Set.InjOn (C.encode h.keys) {k | k ∈ K})
    {es : List (Value × Value)} {bs : List (Bytes × Bytes)}
    (hes : List.Forall₂ (fun e b => C.encode h.keys e.1 = .ok b.1 ∧ C.encode h.values e.2 = .ok b.2)
      es bs) (hin : ∀ e ∈ es, e.1 ∈ K ∧ e.2 ∈ V) :
    Encodes C h K V (es.foldl (fun m e => Function.update m e.1 (some e.2)) ref)
      (bs.foldl (fun E b => Function.update E b.1 (some b.2)) E) := by
  induction hes generalizing ref E with
  | nil => exact he
  | cons hb _ ih =>
    have hhead := hin _ List.mem_cons_self
    exact ih (he.put hinj hhead.1 hhead.2 hb.1 hb.2) fun e he => hin e (List.mem_cons_of_mem _ he)

end Encodes

/-! ## What a write does to a map address -/

/-- Setting encoded entries one after another: the last entry of a key wins. -/
theorem foldl_update_apply (bs : List (Bytes × Bytes)) (E : Bytes → Option Bytes) (k : Bytes) :
    bs.foldl (fun (E : Bytes → Option Bytes) (b : Bytes × Bytes) =>
      Function.update E b.1 (some b.2)) E k = (bs.reverse.lookup k).or (E k) := by
  induction bs generalizing E with
  | nil => simp
  | cons b bs ih =>
    rw [List.foldl_cons, ih, List.reverse_cons, List.lookup_append, Option.or_assoc]
    obtain ⟨kb, vb⟩ := b
    by_cases hk : k = kb
    · simp [Function.update, hk]
    · simp [Function.update, hk, beq_false_of_ne hk]

namespace View

variable {E : Bytes → Option Bytes} {r : Request}

theorem step_mapPut (hrt : r.requestType = .mapPut ∨ r.requestType = .mapPutAll) :
    (⟨none, [], E⟩ : View).step r = ⟨none, [], r.payload.written.foldl
      (fun (E : Bytes → Option Bytes) (b : Bytes × Bytes) =>
        Function.update E b.1 (some b.2)) E⟩ := by
  have hentry : (fun k => (r.payload.written.reverse.lookup k).or (E k)) =
      r.payload.written.foldl (fun (E : Bytes → Option Bytes) (b : Bytes × Bytes) =>
        Function.update E b.1 (some b.2)) E := by
    funext k
    rw [foldl_update_apply]
  rcases hrt with hrt | hrt <;> simp only [step, hrt, hentry]

theorem step_mapRemove {kb : Bytes} (hrt : r.requestType = .mapRemove)
    (hp : r.payload = .userKey kb) :
    (⟨none, [], E⟩ : View).step r = ⟨none, [], Function.update E kb none⟩ := by
  simp only [step, hrt, hp, mk.injEq, true_and]
  funext k
  simp [Function.update_apply]

theorem step_clear (hrt : r.requestType = .clear) : (⟨none, [], E⟩ : View).step r = empty := by
  simp only [step, hrt]

/-- Proper contents that show no value and no items are no map or a sorted one. -/
theorem exists_sorted {g : Option Contents} (hg : ∀ c, g = some c → c.Proper)
    (hE : of g = ⟨none, [], E⟩) :
    ∃ es : ByteMap, es.Sorted ∧ ∀ kb, es.get? kb = E kb := by
  cases g with
  | none =>
    cases hE
    exact ⟨[], ByteMap.sorted_nil, fun _ => rfl⟩
  | some c =>
    cases c with
    | value b => simp [of, empty] at hE
    | list items =>
      have hne : items ≠ [] := hg _ rfl
      simp only [of, empty, mk.injEq] at hE
      exact absurd hE.2.1 hne
    | map m =>
      simp only [of, empty, mk.injEq, true_and] at hE
      exact ⟨m, (hg _ rfl).2, fun kb => by rw [hE]⟩

end View

/-- A write's bytes are the codec's. -/
theorem Codec.write_eq_ok {C : Codec} {e : Encoding} {x : Value} {b : Bytes} :
    C.write e x = .ok b ↔ C.encode e x = .ok b := by
  cases hx : C.encode e x <;> simp [Codec.write, StepError.ofExcept, Except.mapError, hx]

/-- A list mapped without error: each element to the element at its place. -/
theorem forall₂_of_mapM_ok {α β ε : Type} {f : α → Except ε β} :
    ∀ {l : List α} {l' : List β}, l.mapM f = .ok l' →
      List.Forall₂ (fun a b => f a = .ok b) l l'
  | [], l', h => by
    simp only [List.mapM_nil] at h
    cases h
    exact .nil
  | a :: l, l', h => by
    simp only [List.mapM_cons] at h
    cases ha : f a with
    | error e => simp [ha, bind, Except.bind] at h
    | ok b =>
      cases hl : l.mapM f with
      | error e => simp [ha, hl, bind, Except.bind] at h
      | ok bs =>
        simp only [ha, hl, bind, Except.bind, pure, Except.pure, Except.ok.injEq] at h
        subst h
        exact .cons ha (forall₂_of_mapM_ok hl)

namespace Handle

variable {C : Codec} {h : Handle} {op : Operation}

theorem mapWriteOp_put {k v : Value} (hop : h.mapWriteOp C (.put k v) = .ok op) :
    ∃ kb vb, C.encode h.keys k = .ok kb ∧ C.encode h.values v = .ok vb ∧
      op = ⟨.mapPut, .entry kb vb, .done .mapPut, true⟩ := by
  cases hkb : C.encode h.keys k <;> cases hvb : C.encode h.values v <;>
    simp_all [mapWriteOp, Codec.write, StepError.ofExcept, Except.mapError, bind, Except.bind, pure,
      Except.pure]

theorem mapWriteOp_putAll {es : List (Value × Value)}
    (hop : h.mapWriteOp C (.putAll es) = .ok op) :
    ∃ bs, List.Forall₂ (fun e b => C.encode h.keys e.1 = .ok b.1 ∧
      C.encode h.values e.2 = .ok b.2) es bs ∧
      op = ⟨.mapPutAll, .entries bs, .done .mapPutAll, true⟩ := by
  obtain ⟨bs, hbs, rfl⟩ : ∃ bs, es.mapM (fun e => do
        pure ((← C.write h.keys e.1), (← C.write h.values e.2))) = .ok bs ∧
      op = ⟨.mapPutAll, .entries bs, .done .mapPutAll, true⟩ := by
    simp only [mapWriteOp] at hop
    cases hm : es.mapM (fun e => do pure ((← C.write h.keys e.1), (← C.write h.values e.2))) <;>
      simp_all [bind, Except.bind, pure, Except.pure]
  -- each entry's bytes are its key's and its value's encodings
  refine ⟨bs, (forall₂_of_mapM_ok hbs).imp fun e ⟨kb, vb⟩ he => ?_, rfl⟩
  cases hk : C.write h.keys e.1 <;> cases hv : C.write h.values e.2 <;>
    simp_all [bind, Except.bind, pure, Except.pure, Codec.write_eq_ok]

theorem mapWriteOp_remove {k : Value} (hop : h.mapWriteOp C (.remove k) = .ok op) :
    ∃ kb, C.encode h.keys k = .ok kb ∧
      op = ⟨.mapRemove, .userKey kb, .done .mapRemove, true⟩ := by
  cases hkb : C.encode h.keys k <;>
    simp_all [mapWriteOp, Codec.write, StepError.ofExcept, Except.mapError, bind, Except.bind, pure,
      Except.pure]

/-- The request of a write fits a map state, writes, and reads back as `done`. -/
theorem mapWriteOp_fits {w : MapWrite} (hop : h.mapWriteOp C w = .ok op) (state : String) :
    op.requestType.validate state .map op.payload = .ok () ∧
      op.requestType.isReadOnly = false := by
  cases w with
  | put k v =>
    obtain ⟨kb, vb, -, -, rfl⟩ := mapWriteOp_put hop
    exact ⟨rfl, rfl⟩
  | putAll es =>
    obtain ⟨bs, -, rfl⟩ := mapWriteOp_putAll hop
    exact ⟨rfl, rfl⟩
  | remove k =>
    obtain ⟨kb, -, rfl⟩ := mapWriteOp_remove hop
    exact ⟨rfl, rfl⟩
  | clear =>
    cases hop
    exact ⟨rfl, rfl⟩

theorem mapReadOp_get {k : Value} (hop : h.mapReadOp C (.get k) = .ok op) :
    ∃ kb, C.encode h.keys k = .ok kb ∧
      op = ⟨.mapGet, .userKey kb, .value .mapGet h.values, true⟩ := by
  cases hkb : C.encode h.keys k <;>
    simp_all [mapReadOp, Codec.write, StepError.ofExcept, Except.mapError, bind, Except.bind, pure,
      Except.pure]

theorem mapReadOp_contains {k : Value} (hop : h.mapReadOp C (.contains k) = .ok op) :
    ∃ kb, C.encode h.keys k = .ok kb ∧
      op = ⟨.mapContains, .userKey kb, .flag .mapContains, true⟩ := by
  cases hkb : C.encode h.keys k <;>
    simp_all [mapReadOp, Codec.write, StepError.ofExcept, Except.mapError, bind, Except.bind, pure,
      Except.pure]

/-- The request of a read fits a map state. -/
theorem mapReadOp_fits {r : MapRead} (hop : h.mapReadOp C r = .ok op) (state : String) :
    op.requestType.validate state .map op.payload = .ok () := by
  cases r with
  | get k =>
    obtain ⟨kb, -, rfl⟩ := mapReadOp_get hop
    rfl
  | contains k =>
    obtain ⟨kb, -, rfl⟩ := mapReadOp_contains hop
    rfl
  | _ => cases hop; rfl

end Handle

namespace Encodes

open Classical

variable {C : Codec} {h : Handle} {K V : List Value} {ref : Value → Option Value} {E : Bytes → Option Bytes}

/-- The request of a write moves the entries of a map address as the write moves the reference
map, and the address shows no value and no items after it. -/
theorem step (he : Encodes C h K V ref E) (hinj : Set.InjOn (C.encode h.keys) {k | k ∈ K})
    {w : MapWrite} {op : Operation} (hop : h.mapWriteOp C w = .ok op) (hK : ∀ k ∈ w.keys, k ∈ K)
    (hV : ∀ v ∈ w.values, v ∈ V) {r : Request} (hrt : r.requestType = op.requestType)
    (hp : r.payload = op.payload) :
    ∃ E', (⟨none, [], E⟩ : View).step r = ⟨none, [], E'⟩ ∧
      Encodes C h K V (w.apply ref) E' := by
  cases w with
  | put k v =>
    obtain ⟨kb, vb, hkb, hvb, rfl⟩ := Handle.mapWriteOp_put hop
    refine ⟨_, View.step_mapPut (.inl hrt), ?_⟩
    simp only [hp, Payload.written, List.foldl_cons, List.foldl_nil]
    exact he.put hinj (hK k (by simp [MapWrite.keys])) (hV v (by simp [MapWrite.values])) hkb hvb
  | putAll es =>
    obtain ⟨bs, hes, rfl⟩ := Handle.mapWriteOp_putAll hop
    refine ⟨_, View.step_mapPut (.inr hrt), ?_⟩
    simp only [hp, Payload.written]
    exact he.putAll hinj hes fun e he =>
      ⟨hK e.1 (List.mem_map_of_mem he), hV e.2 (List.mem_map_of_mem he)⟩
  | remove k =>
    obtain ⟨kb, hkb, rfl⟩ := Handle.mapWriteOp_remove hop
    exact ⟨_, View.step_mapRemove hrt hp, he.remove hinj (hK k (by simp [MapWrite.keys])) hkb⟩
  | clear =>
    cases hop
    exact ⟨_, View.step_clear hrt, empty⟩

end Encodes

/-! ## The direct handler at a map address -/

namespace RequestType

/-- A request type and payload that pass validation have one shape, and the request type
addresses the state's kind or none. -/
theorem shape_of_validate {rt : RequestType} {state : String} {kind : StateKind} {p : Payload}
    (h : rt.validate state kind p = .ok ()) :
    rt.shape = p.shape ∧ ∀ k, rt.kind? = some k → k = kind := by
  unfold validate at h
  split at h <;> split_ifs at h <;> simp_all

/-- The store takes every payload of the request type's shape. -/
theorem takes_of_shape {rt : RequestType} {p : Payload} (h : rt.shape = p.shape) :
    rt.takes p = true := by
  cases rt <;> cases p <;> simp_all [takes, shape, Payload.shape]

end RequestType

/-- At an address that shows no value and no items, a request the store takes that addresses a
map, or no kind, is answered from the view. -/
theorem Answers.ok_of_mapView {E : Bytes → Option Bytes} {r : Request}
    {res : Except StateError Response} (hans : Answers ⟨none, [], E⟩ r res)
    (hkind : ∀ k, r.requestType.kind? = some k → k = .map)
    (ht : r.requestType.takes r.payload = true) :
    ∃ resp, res = .ok resp ∧ Replies ⟨none, [], E⟩ r resp := by
  cases hans with
  | malformed hf => simp [ht] at hf
  | @conflict held want _ _ hw hh hne =>
    cases hkind want hw
    cases held <;> simp [View.Holds] at hh hne
  | reply _ _ hr => exact ⟨_, rfl, hr⟩

namespace Direct

/-- A validated request of a map state at an address that shows no value and no items: the
store answers from the view, the view moves by the request, the store stays proper, and no
other address changes. -/
theorem perform_mapView {d : Direct} {key : Nat} {state : String} {ns : Bytes}
    {rt : RequestType} {payload : Payload} {E : Bytes → Option Bytes}
    (hv : rt.validate state .map payload = .ok ()) (hk : d.current = some key)
    (hs : d.store.Proper) (hE : View.of (d.store.get? ⟨state, key, ns⟩) = ⟨none, [], E⟩) :
    ∃ resp d', d.perform (.submit state .map rt ns payload) = ([.ok (.ok resp)], d') ∧
      Replies ⟨none, [], E⟩ ⟨d.nextId, key, state, .map, ns, rt, payload, d.nextId⟩ resp ∧
      d'.current = d.current ∧ d'.store.Proper ∧
      View.of (d'.store.get? ⟨state, key, ns⟩) = (⟨none, [], E⟩ : View).step
        ⟨d.nextId, key, state, .map, ns, rt, payload, d.nextId⟩ ∧
      ∀ a, a ≠ ⟨state, key, ns⟩ → d'.store.get? a = d.store.get? a := by
  rw [perform_keyed hv hk]
  set r : Request := ⟨d.nextId, key, state, .map, ns, rt, payload, d.nextId⟩
  obtain ⟨hshape, hkind⟩ := RequestType.shape_of_validate hv
  have haddr : r.address = ⟨state, key, ns⟩ := rfl
  obtain ⟨hans, hprop, hview⟩ := @Store.execute_steps _ r hs
  rw [haddr, hE] at hans
  obtain ⟨resp, hres, hr⟩ := Answers.ok_of_mapView hans hkind
    (RequestType.takes_of_shape hshape)
  refine ⟨resp, { d with store := (d.store.execute r).2, nextId := d.nextId + 1 }, by rw [hres],
    hr, rfl, hprop, ?_, fun a ha => Store.get?_execute_ne _ _ ha⟩
  rw [hview, hres, haddr, hE]
  simp [Except.isOk, Except.toBool]

theorem runProgram_cons (d : Direct) (op : Op) (ops : List Op) :
    d.runProgram (op :: ops) =
      ((d.perform op).1 ++ ((d.perform op).2.runProgram ops).1,
        ((d.perform op).2.runProgram ops).2) := by
  -- the answers gathered so far only grow at the front of the fold
  have hacc : ∀ (ops : List Op) (acc : List (Except StateError (Except StateError Response)))
      (d : Direct), ops.foldl (fun acc op => (acc.1 ++ (acc.2.perform op).1,
        (acc.2.perform op).2)) (acc, d) = (acc ++ (d.runProgram ops).1, (d.runProgram ops).2) := by
    intro ops
    induction ops with
    | nil => intro acc d; simp [runProgram]
    | cons op ops ih =>
      intro acc d
      simp only [runProgram, List.foldl_cons, List.nil_append] at ih ⊢
      rw [ih, ih (d.perform op).1]
      simp
  simp only [runProgram, List.foldl_cons, List.nil_append]
  exact hacc ops _ _

/-- The direct handler while it writes the map state of `h` in namespace `ns` for key `key`:
the key is current, the store proper, and the state's address shows no value, no items and
entries that encode `ref`. -/
structure ShowsMap (d : Direct) (C : Codec) (h : Handle) (K V : List Value) (key : Nat) (ns : Bytes)
    (ref : Value → Option Value) : Prop where
  current : d.current = some key
  proper : d.store.Proper
  entries : ∃ E, View.of (d.store.get? ⟨h.state, key, ns⟩) = ⟨none, [], E⟩ ∧
    Encodes C h K V ref E

section
variable {C : Codec} {h : Handle} {K V : List Value} {key : Nat} {ns : Bytes} {ref : Value → Option Value}

/-- One write: the handler answers `done`, moves the map as the write moves the reference map,
and changes no other address. -/
theorem ShowsMap.write {d : Direct} (hd : d.ShowsMap C h K V key ns ref) (hmap : h.kind = .map)
    (hinj : Set.InjOn (C.encode h.keys) {k | k ∈ K}) {w : MapWrite} {op : Operation}
    (hop : h.mapWriteOp C w = .ok op) (hK : ∀ k ∈ w.keys, k ∈ K)
    (hV : ∀ v ∈ w.values, v ∈ V) :
    ∃ d', d.perform (h.submission ns op) = ([.ok (.ok .done)], d') ∧
      d'.ShowsMap C h K V key ns (w.apply ref) ∧
      ∀ a, a ≠ ⟨h.state, key, ns⟩ → d'.store.get? a = d.store.get? a := by
  obtain ⟨E, hE, he⟩ := hd.entries
  obtain ⟨hv, hro⟩ := Handle.mapWriteOp_fits hop h.state
  obtain ⟨resp, d', hperf, hr, hcur, hprop, hview, hframe⟩ :=
    perform_mapView hv hd.current hd.proper hE
  obtain ⟨E', hstep, he'⟩ := he.step hinj hop hK hV (show
    (⟨d.nextId, key, h.state, .map, ns, op.requestType, op.payload, d.nextId⟩ :
      Request).requestType = op.requestType from rfl) rfl
  -- a write is answered `done`
  have hdone : resp = .done := Replies.unique hr (.done hro)
  refine ⟨d', ?_, ⟨hcur.trans hd.current, hprop, E', hview.trans hstep, he'⟩, hframe⟩
  rw [Handle.submission, hmap, hperf, hdone]

/-- A run of writes: every write is answered `done`, the map follows the reference map, and no
other address changes. -/
theorem ShowsMap.writes (hmap : h.kind = .map) (hinj : Set.InjOn (C.encode h.keys) {k | k ∈ K})
    {ws : List MapWrite} {ops : List Operation}
    (hops : List.Forall₂ (fun w op => h.mapWriteOp C w = .ok op) ws ops)
    (hin : ∀ w ∈ ws, (∀ k ∈ w.keys, k ∈ K) ∧ ∀ v ∈ w.values, v ∈ V) {d : Direct}
    (hd : d.ShowsMap C h K V key ns ref) :
    ∃ d', d.runProgram (ops.map (h.submission ns)) = (ops.map fun _ => .ok (.ok .done), d') ∧
      d'.ShowsMap C h K V key ns (ws.foldl MapWrite.apply ref) ∧
      ∀ a, a ≠ ⟨h.state, key, ns⟩ → d'.store.get? a = d.store.get? a := by
  induction hops generalizing d ref with
  | nil => exact ⟨d, rfl, hd, fun _ _ => rfl⟩
  | @cons w op ws ops hop _ ih =>
    have hw := hin w List.mem_cons_self
    obtain ⟨d₁, hperf, hd₁, hframe₁⟩ := hd.write hmap hinj hop hw.1 hw.2
    obtain ⟨d₂, hrun, hd₂, hframe₂⟩ :=
      ih (fun w hw => hin w (List.mem_cons_of_mem _ hw)) hd₁
    refine ⟨d₂, ?_, hd₂, fun a ha => (hframe₂ a ha).trans (hframe₁ a ha)⟩
    rw [List.map_cons, runProgram_cons, hperf]
    simp [hrun]

end

end Direct

/-! ## Reading the map back -/

namespace ByteMap

/-- In a sorted map every entry is the value of its key. -/
theorem get?_of_mem {m : ByteMap} (hm : m.Sorted) {e : Bytes × Bytes} (he : e ∈ m) :
    m.get? e.1 = some e.2 := by
  induction m with
  | nil => cases he
  | cons e' rest ih =>
    obtain ⟨hlt, hrest⟩ := sorted_cons.mp hm
    obtain ⟨k', v'⟩ := e'
    rcases List.mem_cons.mp he with rfl | hin
    · simp [get?_cons]
    · -- the keys after the first are above it
      have hne : e.1 ≠ k' := by
        intro heq
        have hk := hlt e hin
        rw [← heq, bytesLt_self] at hk
        cases hk
      rw [get?_cons, if_neg hne]
      exact ih hrest hin

theorem mem_of_get? {m : ByteMap} {k v : Bytes} (h : m.get? k = some v) : (k, v) ∈ m := by
  induction m with
  | nil => simp at h
  | cons e rest ih =>
    obtain ⟨k', v'⟩ := e
    rw [get?_cons] at h
    split at h
    · next hk =>
      cases h
      subst hk
      exact List.mem_cons_self
    · exact List.mem_cons_of_mem _ (ih h)

end ByteMap

section
variable {α β : Type} {R : α → β → Prop}

theorem forall₂_exists_right {l : List α} {l' : List β} (h : List.Forall₂ R l l') {a : α}
    (ha : a ∈ l) : ∃ b ∈ l', R a b := by
  induction h with
  | nil => cases ha
  | @cons a' b' _ _ hab _ ih =>
    rcases List.mem_cons.mp ha with rfl | ha
    · exact ⟨b', List.mem_cons_self, hab⟩
    · obtain ⟨b, hb, hR⟩ := ih ha
      exact ⟨b, List.mem_cons_of_mem _ hb, hR⟩

theorem forall₂_exists_left {l : List α} {l' : List β} (h : List.Forall₂ R l l') {b : β}
    (hb : b ∈ l') : ∃ a ∈ l, R a b := by
  induction h with
  | nil => cases hb
  | @cons a' b' _ _ hab _ ih =>
    rcases List.mem_cons.mp hb with rfl | hb
    · exact ⟨a', List.mem_cons_self, hab⟩
    · obtain ⟨a, ha, hR⟩ := ih hb
      exact ⟨a, List.mem_cons_of_mem _ ha, hR⟩

/-- Mapping without error, element by element. -/
theorem mapM_ok_of_forall₂ {γ ε : Type} {f : β → Except ε γ} {g : α → γ} :
    ∀ {l : List α} {l' : List β}, List.Forall₂ (fun a b => f b = .ok (g a)) l l' →
      l'.mapM f = .ok (l.map g)
  | _, _, .nil => rfl
  | _, _, .cons hab hrest => by
    simp [List.mapM_cons, hab, mapM_ok_of_forall₂ hrest, bind, Except.bind, pure, Except.pure]

end

theorem Codec.RoundTrips.decode_eq {C : Codec} {e : Encoding} {x : Value} {b : Bytes}
    (hrt : C.RoundTrips e x) (hb : C.encode e x = .ok b) : C.decode e b = .ok x.toJson := by
  obtain ⟨b', hb', hdec⟩ := hrt
  rw [hb] at hb'
  cases hb'
  exact hdec

namespace Encodes

open Classical

variable {C : Codec} {h : Handle} {K V : List Value} {ref : Value → Option Value} {E : Bytes → Option Bytes}

/-- The entries are fixed by the map they encode. -/
theorem unique {E' : Bytes → Option Bytes} (he : Encodes C h K V ref E)
    (he' : Encodes C h K V ref E') : E = E' := by
  funext kb
  apply Option.ext
  intro vb
  rw [he.entry, he'.entry]

/-- The entry of a key that no other key of `K` shares its encoding with holds the encoding of
the key's value. -/
theorem entry_iff_of_sep (he : Encodes C h K V ref E) {k : Value} {kb vb : Bytes}
    (hkb : C.encode h.keys k = .ok kb)
    (hsep : ∀ k' ∈ K, C.encode h.keys k' = C.encode h.keys k → k' = k) :
    E kb = some vb ↔ ∃ v, ref k = some v ∧ C.encode h.values v = .ok vb := by
  rw [he.entry]
  constructor
  · rintro ⟨k', v, hk', hv, hvb⟩
    obtain rfl := hsep k' (he.support k' v hv).1 (hk'.trans hkb.symm)
    exact ⟨v, hv, hvb⟩
  · rintro ⟨v, hv, hvb⟩
    exact ⟨k, v, hkb, hv, hvb⟩

/-- A sorted map of the entries lists, entry by entry, the encodings of entries of `ref`. -/
theorem exists_list (he : Encodes C h K V ref E) {es : ByteMap} (hes : es.Sorted)
    (hlookup : ∀ kb, es.get? kb = E kb) :
    ∃ L : List (Value × Value), List.Forall₂ (fun e b => C.encode h.keys e.1 = .ok b.1 ∧
      ref e.1 = some e.2 ∧ C.encode h.values e.2 = .ok b.2) L es := by
  have hall : ∀ b ∈ es, ∃ e : Value × Value, C.encode h.keys e.1 = .ok b.1 ∧
      ref e.1 = some e.2 ∧ C.encode h.values e.2 = .ok b.2 := by
    intro b hb
    obtain ⟨k, v, hk, hv, hvb⟩ :=
      (he.entry b.1 b.2).mp ((hlookup b.1).symm.trans (ByteMap.get?_of_mem hes hb))
    exact ⟨(k, v), hk, hv, hvb⟩
  clear hes hlookup
  -- one entry of `ref` for each entry of the map, in order
  induction es with
  | nil => exact ⟨[], .nil⟩
  | cons b rest ih =>
    obtain ⟨e, hb⟩ := hall b List.mem_cons_self
    obtain ⟨L, hL⟩ := ih fun b hb => hall b (List.mem_cons_of_mem _ hb)
    exact ⟨e :: L, .cons hb hL⟩

/-- Such a list holds exactly the entries of `ref`. -/
theorem mem_iff (he : Encodes C h K V ref E) (hinj : Set.InjOn (C.encode h.keys) {k | k ∈ K})
    (hKenc : ∀ k ∈ K, ∃ kb, C.encode h.keys k = .ok kb)
    (hVenc : ∀ v ∈ V, ∃ vb, C.encode h.values v = .ok vb) {es : ByteMap}
    (hlookup : ∀ kb, es.get? kb = E kb) {L : List (Value × Value)}
    (hL : List.Forall₂ (fun e b => C.encode h.keys e.1 = .ok b.1 ∧ ref e.1 = some e.2 ∧
      C.encode h.values e.2 = .ok b.2) L es) (k v : Value) :
    (k, v) ∈ L ↔ ref k = some v := by
  constructor
  · intro hmem
    obtain ⟨b, -, hR⟩ := forall₂_exists_right hL hmem
    exact hR.2.1
  · intro hv
    obtain ⟨hk, hvV⟩ := he.support k v hv
    obtain ⟨kb, hkb⟩ := hKenc k hk
    obtain ⟨vb, hvb⟩ := hVenc v hvV
    -- the map holds the encoded entry, and the list's entry there is `(k, v)`
    have hmem : (kb, vb) ∈ es := ByteMap.mem_of_get?
      ((hlookup kb).trans ((he.entry kb vb).mpr ⟨k, v, hkb, hv, hvb⟩))
    obtain ⟨⟨k', v'⟩, hmem', hk'b, hv', -⟩ := forall₂_exists_left hL hmem
    obtain rfl : k' = k := hinj (he.support k' v' hv').1 hk (hk'b.trans hkb.symm)
    obtain rfl : v' = v := Option.some.inj (hv'.symm.trans hv)
    exact hmem'

/-- The entry of a read key: none when the key has no value, else the encoding of its value. -/
theorem entry_cases (he : Encodes C h K V ref E)
    (hVenc : ∀ v ∈ V, ∃ vb, C.encode h.values v = .ok vb) {k : Value} {kb : Bytes}
    (hkb : C.encode h.keys k = .ok kb)
    (hsep : ∀ k' ∈ K, C.encode h.keys k' = C.encode h.keys k → k' = k) :
    (ref k = none ∧ E kb = none) ∨
      ∃ v vb, ref k = some v ∧ C.encode h.values v = .ok vb ∧ E kb = some vb := by
  cases hv : ref k with
  | none =>
    refine .inl ⟨rfl, Option.eq_none_iff_forall_ne_some.mpr fun vb hvb => ?_⟩
    obtain ⟨v, hv', -⟩ := (he.entry_iff_of_sep hkb hsep).mp hvb
    simp [hv] at hv'
  | some v =>
    obtain ⟨vb, hvb⟩ := hVenc v (he.support k v hv).2
    exact .inr ⟨v, vb, rfl, hvb, (he.entry_iff_of_sep hkb hsep).mpr ⟨v, hv, hvb⟩⟩

end Encodes

namespace Direct

section
variable {C : Codec} {h : Handle} {K V : List Value} {key : Nat} {ns : Bytes} {ref : Value → Option Value}

/-- A read of a map state the handler shows: it answers as the views of the list `L` say, when
`L` lists, entry by entry, the encodings of a sorted map of the address's entries. -/
theorem ShowsMap.read {d : Direct} (hd : d.ShowsMap C h K V key ns ref) (hmap : h.kind = .map)
    (hKrt : ∀ k ∈ K, C.RoundTrips h.keys k) (hVrt : ∀ v ∈ V, C.RoundTrips h.values v)
    {E : Bytes → Option Bytes}
    (hE : View.of (d.store.get? ⟨h.state, key, ns⟩) = ⟨none, [], E⟩)
    {es : ByteMap} (hes : es.Sorted) (hlookup : ∀ kb, es.get? kb = E kb)
    {L : List (Value × Value)}
    (hL : List.Forall₂ (fun e b => C.encode h.keys e.1 = .ok b.1 ∧ ref e.1 = some e.2 ∧
      C.encode h.values e.2 = .ok b.2) L es)
    {r : MapRead} {op : Operation} (hop : h.mapReadOp C r = .ok op)
    (hsep : ∀ k, r.key? = some k → ∀ k' ∈ K,
      C.encode h.keys k' = C.encode h.keys k → k' = k) :
    ∃ resp d', d.perform (h.submission ns op) = ([.ok (.ok resp)], d') ∧
      op.reply.readWith C.decode resp = .ok (r.view L ref) := by
  have he : Encodes C h K V ref E := by
    obtain ⟨E', hE', he'⟩ := hd.entries
    obtain rfl : E = E' := by
      have := hE.symm.trans hE'
      simpa using this
    exact he'
  have hVenc : ∀ v ∈ V, ∃ vb, C.encode h.values v = .ok vb := fun v hv =>
    (hVrt v hv).imp fun _ hb => hb.1
  obtain ⟨resp, d', hperf, hr, -⟩ :=
    perform_mapView (Handle.mapReadOp_fits hop h.state) hd.current hd.proper hE
  refine ⟨resp, d', by rw [Handle.submission, hmap, hperf], ?_⟩
  -- every entry of the list decodes to its user key and value
  have hdec : ∀ (e : Value × Value) (b : Bytes × Bytes), (C.encode h.keys e.1 = .ok b.1 ∧
      ref e.1 = some e.2 ∧ C.encode h.values e.2 = .ok b.2) →
      C.decode h.keys b.1 = .ok e.1.toJson ∧ C.decode h.values b.2 = .ok e.2.toJson := by
    rintro e b ⟨hk, hv, hvb⟩
    have hin := he.support e.1 e.2 hv
    exact ⟨(hKrt e.1 hin.1).decode_eq hk, (hVrt e.2 hin.2).decode_eq hvb⟩
  cases r with
  | entries =>
    cases hop
    obtain rfl : resp = .entries es := Replies.unique hr (.mapIter rfl hes hlookup)
    have hm : es.mapM (fun b => do
          pure (Json.array [← C.decode h.keys b.1, ← C.decode h.values b.2])) =
        .ok (L.map fun e => .array [e.1.toJson, e.2.toJson]) :=
      mapM_ok_of_forall₂ (hL.imp fun e ⟨kb, vb⟩ hR => by
        simp [(hdec e (kb, vb) hR).1, (hdec e (kb, vb) hR).2, bind, Except.bind, pure,
          Except.pure])
    simp only [Reply.readWith, Response.intoEntries]
    change Json.array <$> (List.mapM _ es : Except StateError (List Json)) = _
    rw [hm]
    rfl
  | keys =>
    cases hop
    obtain rfl : resp = .entries es := Replies.unique hr (.mapIter rfl hes hlookup)
    have hm : (es.map (·.1)).mapM (C.decode h.keys) = .ok (L.map fun e => e.1.toJson) :=
      mapM_ok_of_forall₂ (List.forall₂_map_right_iff.mpr (hL.imp fun e b hR => (hdec e b hR).1))
    simp only [Reply.readWith, Response.intoEntries]
    change Json.array <$> (List.mapM _ (es.map (·.1)) : Except StateError (List Json)) = _
    rw [hm]
    rfl
  | values =>
    cases hop
    obtain rfl : resp = .entries es := Replies.unique hr (.mapIter rfl hes hlookup)
    have hm : (es.map (·.2)).mapM (C.decode h.values) = .ok (L.map fun e => e.2.toJson) :=
      mapM_ok_of_forall₂ (List.forall₂_map_right_iff.mpr (hL.imp fun e b hR => (hdec e b hR).2))
    simp only [Reply.readWith, Response.intoEntries]
    change Json.array <$> (List.mapM _ (es.map (·.2)) : Except StateError (List Json)) = _
    rw [hm]
    rfl
  | get k =>
    obtain ⟨kb, hkb, rfl⟩ := Handle.mapReadOp_get hop
    obtain rfl : resp = .value (E kb) := Replies.unique hr (.mapGet rfl rfl)
    rcases he.entry_cases hVenc hkb (hsep k rfl) with ⟨hnone, hE⟩ | ⟨v, vb, hv, hvb, hE⟩
    · simp [Reply.readWith, Response.intoValue, hE, MapRead.view, hnone, bind, Except.bind, pure,
        Except.pure]
    · have hdv := (hVrt v (he.support k v hv).2).decode_eq hvb
      simp [Reply.readWith, Response.intoValue, hE, MapRead.view, hv, hdv, bind, Except.bind, pure,
        Except.pure]
  | contains k =>
    obtain ⟨kb, hkb, rfl⟩ := Handle.mapReadOp_contains hop
    obtain rfl : resp = .bool (E kb).isSome := Replies.unique hr (.mapContains rfl rfl)
    rcases he.entry_cases hVenc hkb (hsep k rfl) with ⟨hnone, hE⟩ | ⟨v, vb, hv, hvb, hE⟩
    · simp [Reply.readWith, Response.intoBool, hE, MapRead.view, hnone]
    · simp [Reply.readWith, Response.intoBool, hE, MapRead.view, hv]
  | isEmpty =>
    cases hop
    -- the map is empty exactly when no encoded key has an entry
    have hempty : es.isEmpty = true ↔ ∀ kb, E kb = none := by
      rw [List.isEmpty_iff, ByteMap.eq_nil_iff_get?]
      simp only [hlookup]
    obtain rfl : resp = .bool es.isEmpty := Replies.unique hr (.mapIsEmpty rfl hempty)
    have hlen : L.isEmpty = es.isEmpty := by
      cases hL <;> rfl
    simp [Reply.readWith, Response.intoBool, MapRead.view, hlen]

/-- The program of a key's writes, from a handler whose store is proper and holds nothing at
the state's address: every write is answered `done`, the address shows the reference map, and
no other address changes. -/
theorem ShowsMap.program {ws : List MapWrite} {ops : List Operation} (hmap : h.kind = .map)
    (hops : List.Forall₂ (fun w op => h.mapWriteOp C w = .ok op) ws ops)
    (hinj : Set.InjOn (C.encode h.keys) {k | k ∈ ws.flatMap MapWrite.keys}) {d : Direct}
    (hd : d.store.Proper) (hfresh : d.store.get? ⟨h.state, key, ns⟩ = none) :
    ∃ d', d.runProgram (.setKey key :: ops.map (h.submission ns)) =
        (ops.map fun _ => .ok (.ok .done), d') ∧
      d'.ShowsMap C h (ws.flatMap MapWrite.keys) (ws.flatMap MapWrite.values) key ns
        (MapWrite.reference ws) ∧
      ∀ a, a ≠ ⟨h.state, key, ns⟩ → d'.store.get? a = d.store.get? a := by
  have hstart : ({ d with current := some key } : Direct).ShowsMap C h (ws.flatMap MapWrite.keys)
      (ws.flatMap MapWrite.values) key ns fun _ => none :=
    ⟨rfl, hd, fun _ => none, by rw [hfresh]; rfl, .empty⟩
  have hin : ∀ w ∈ ws, (∀ k ∈ w.keys, k ∈ ws.flatMap MapWrite.keys) ∧
      ∀ v ∈ w.values, v ∈ ws.flatMap MapWrite.values := fun w hw =>
    ⟨fun k hk => List.mem_flatMap.mpr ⟨w, hw, hk⟩,
      fun v hv => List.mem_flatMap.mpr ⟨w, hw, hv⟩⟩
  obtain ⟨d', hrun, hd', hframe⟩ := hstart.writes hmap hinj hops hin
  refine ⟨d', ?_, hd', hframe⟩
  rw [runProgram_cons, show d.perform (.setKey key) = ([], { d with current := some key }) from rfl,
    hrun]
  rfl

end

end Direct

/-! ## The map a key's writes leave, through every view -/

/-- After any sequence of `put`, `put_all`, `remove` and `clear` of one key and namespace, on
a handler whose store holds nothing there: every write is answered `done`, no other address
changes, and the map state observes the reference map `MapWrite.reference ws` listed as `L`,
in strictly ascending byte order of the encoded user keys. An iteration shows `L`'s entries,
its keys and its values in that order, a lookup the reference value, `contains` whether there
is one, and `is_empty` whether `L` is empty. The controller, once every request is answered,
gives every read the same answer. This holds of every codec whose key encoding tells the
written keys apart, and under which the keys and values written read back as themselves. -/
theorem map_views_follow_reference {τ : Type} {C : Codec} {h : Handle} {key : Nat} {ns : Bytes}
    {ws : List MapWrite} {ops : List Operation} {d : Direct} (hmap : h.kind = .map)
    (hops : ws.mapM (h.mapWriteOp C) = .ok ops)
    (hinj : Set.InjOn (C.encode h.keys) {k | k ∈ ws.flatMap MapWrite.keys})
    (hkeys : ∀ k ∈ ws.flatMap MapWrite.keys, C.RoundTrips h.keys k)
    (hvalues : ∀ v ∈ ws.flatMap MapWrite.values, C.RoundTrips h.values v)
    (hd : d.store.Proper) (hfresh : d.store.get? ⟨h.state, key, ns⟩ = none) :
    (d.runProgram (.setKey key :: ops.map (h.submission ns))).1 =
        ops.map (fun _ => .ok (.ok .done)) ∧
    (∀ a, a ≠ ⟨h.state, key, ns⟩ →
      (d.runProgram (.setKey key :: ops.map (h.submission ns))).2.store.get? a =
        d.store.get? a) ∧
    ∃ L : List (Value × Value),
      (∃ es : ByteMap, es.Sorted ∧ List.Forall₂ (fun e b => C.encode h.keys e.1 = .ok b.1 ∧
        C.encode h.values e.2 = .ok b.2) L es) ∧
      (∀ k v, (k, v) ∈ L ↔ MapWrite.reference ws k = some v) ∧
      ∀ (r : MapRead) (op : Operation), h.mapReadOp C r = .ok op →
        (∀ k, r.key? = some k → ∀ k' ∈ ws.flatMap MapWrite.keys,
          C.encode h.keys k' = C.encode h.keys k → k' = k) →
        (∃ resp, (d.runProgram ((.setKey key :: ops.map (h.submission ns)) ++
            [h.submission ns op])).1 = ops.map (fun _ => .ok (.ok .done)) ++ [.ok (.ok resp)] ∧
          op.reply.readWith C.decode resp = .ok (r.view L (MapWrite.reference ws))) ∧
        ∀ (cfg : Config) (m : Machine τ) (answers : List (Except StateError Nat)),
          ProgramRun cfg ((.setKey key :: ops.map (h.submission ns)) ++ [h.submission ns op]) m
            answers → m.ctl.inFlight = [] →
          ∃ id resp, answers.getLast? = some (.ok id) ∧
            (m.taken.filter (·.id = id)).map (·.result) = [.ok resp] ∧
            op.reply.readWith C.decode resp = .ok (r.view L (MapWrite.reference ws)) := by
  have hops' := forall₂_of_mapM_ok hops
  have hKenc : ∀ k ∈ ws.flatMap MapWrite.keys, ∃ kb, C.encode h.keys k = .ok kb :=
    fun k hk => (hkeys k hk).imp fun _ hb => hb.1
  have hVenc : ∀ v ∈ ws.flatMap MapWrite.values, ∃ vb, C.encode h.values v = .ok vb :=
    fun v hv => (hvalues v hv).imp fun _ hb => hb.1
  obtain ⟨d₁, hrun, hd₁, hframe⟩ := Direct.ShowsMap.program hmap hops' hinj hd hfresh
  obtain ⟨E, hE, he⟩ := hd₁.entries
  obtain ⟨es, hes, hlookup⟩ := View.exists_sorted (hd₁.proper _) hE
  obtain ⟨L, hL⟩ := he.exists_list hes hlookup
  -- the controller refines the handler that starts from the empty store: it shows the same
  -- entries after the same writes
  have hempty : ({} : Direct).store.Proper := fun _ _ h => by simp [Store.get?] at h
  obtain ⟨d₀, hrun₀, hd₀, -⟩ :=
    Direct.ShowsMap.program hmap hops' hinj hempty (show Store.get? {} _ = none from rfl)
  obtain ⟨E₀, hE₀, he₀⟩ := hd₀.entries
  obtain rfl : E₀ = E := he₀.unique he
  refine ⟨by rw [hrun], by rw [hrun]; exact hframe, L,
    ⟨es, hes, hL.imp fun _ _ hR => ⟨hR.1, hR.2.2⟩⟩, he.mem_iff hinj hKenc hVenc hlookup hL,
    fun r op hop hsep => ?_⟩
  obtain ⟨resp, d₂, hperf, hread⟩ := hd₁.read hmap hkeys hvalues hE hes hlookup hL hop hsep
  obtain ⟨resp₀, d₂', hperf₀, hread₀⟩ :=
    hd₀.read hmap hkeys hvalues hE₀ hes hlookup hL hop hsep
  refine ⟨⟨resp, by rw [Direct.runProgram_append, hrun, hperf], hread⟩,
    fun cfg m answers hprog hdrained => ?_⟩
  obtain ⟨hrel, -⟩ := hprog.refines_of_drained hdrained
  rw [Direct.runProgram_append, hrun₀, hperf₀] at hrel
  -- the read's answer is the last one
  obtain ⟨a, rest, hRa, hrest, hdrop⟩ :=
    List.forall₂_cons_right_iff.mp (List.forall₂_drop_append answers _ _ hrel)
  obtain rfl := List.forall₂_nil_right_iff.mp hrest
  rcases hRa with ⟨e, -, hcontra⟩ | ⟨id, res, rfl, hres, htaken⟩
  · cases hcontra
  · obtain rfl : .ok resp₀ = res := Except.ok.inj hres
    refine ⟨id, resp₀, ?_, htaken, hread₀⟩
    rw [← List.take_append_drop (ops.map fun _ => .ok (.ok .done) :
      List (Except StateError (Except StateError Response))).length answers, hdrop]
    simp

/-- Two writes under integer keys written in MessagePack by the library's codec, where byte
order puts `1` (`0x01`) before `-1` (`0xff`); the batch writes `1` twice and the later value
wins. -/
theorem msgpack_map_views :
    let h : Handle := ⟨"m", "m", .map, ⟨.i64, .msgpack⟩, ⟨.i64, .msgpack⟩, .void, .void⟩
    let ws : List MapWrite :=
      [.put (.i64 (-1)) (.i64 5), .putAll [(.i64 1, .i64 6), (.i64 1, .i64 7)]]
    let ops : List Operation :=
      [⟨.mapPut, .entry [255] [5], .done .mapPut, true⟩,
        ⟨.mapPutAll, .entries [([1], [6]), ([1], [7])], .done .mapPutAll, true⟩]
    let d : Direct := {}
    let C := Codec.formats
    (h.kind = .map ∧ ws.mapM (h.mapWriteOp C) = .ok ops ∧
      Set.InjOn (C.encode h.keys) {k | k ∈ ws.flatMap MapWrite.keys} ∧
      (∀ k ∈ ws.flatMap MapWrite.keys, C.RoundTrips h.keys k) ∧
      (∀ v ∈ ws.flatMap MapWrite.values, C.RoundTrips h.values v) ∧
      d.store.Proper ∧ d.store.get? ⟨h.state, 1, []⟩ = none) ∧
    ((d.runProgram (.setKey 1 :: ops.map (h.submission []))).1 =
        ops.map (fun _ => .ok (.ok .done)) ∧
    (∀ a, a ≠ ⟨h.state, 1, []⟩ →
      (d.runProgram (.setKey 1 :: ops.map (h.submission []))).2.store.get? a = d.store.get? a) ∧
    ∃ L : List (Value × Value),
      (∃ es : ByteMap, es.Sorted ∧ List.Forall₂ (fun e b => C.encode h.keys e.1 = .ok b.1 ∧
        C.encode h.values e.2 = .ok b.2) L es) ∧
      (∀ k v, (k, v) ∈ L ↔ MapWrite.reference ws k = some v) ∧
      ∀ (r : MapRead) (op : Operation), h.mapReadOp C r = .ok op →
        (∀ k, r.key? = some k → ∀ k' ∈ ws.flatMap MapWrite.keys,
          C.encode h.keys k' = C.encode h.keys k → k' = k) →
        (∃ resp, (d.runProgram ((.setKey 1 :: ops.map (h.submission [])) ++
            [h.submission [] op])).1 = ops.map (fun _ => .ok (.ok .done)) ++ [.ok (.ok resp)] ∧
          op.reply.read resp = .ok (r.view L (MapWrite.reference ws))) ∧
        ∀ (cfg : Config) (m : Machine Ticket) (answers : List (Except StateError Nat)),
          ProgramRun cfg ((.setKey 1 :: ops.map (h.submission [])) ++ [h.submission [] op]) m
            answers → m.ctl.inFlight = [] →
          ∃ id resp, answers.getLast? = some (.ok id) ∧
            (m.taken.filter (·.id = id)).map (·.result) = [.ok resp] ∧
            op.reply.read resp = .ok (r.view L (MapWrite.reference ws))) := by
  intro h ws ops d C
  have hinj : Set.InjOn (C.encode h.keys) {k | k ∈ ws.flatMap MapWrite.keys} := by
    intro x hx y hy hxy
    simp only [ws, List.flatMap_cons, List.flatMap_nil, MapWrite.keys, List.map_cons,
      List.map_nil, List.cons_append, List.nil_append, List.append_nil, Set.mem_ofPred_eq,
      List.mem_cons, List.not_mem_nil, or_false] at hx hy
    rcases hx with rfl | rfl | rfl <;> rcases hy with rfl | rfl | rfl <;> first
      | rfl
      | exact absurd hxy (by decide)
  have hkeys : ∀ k ∈ ws.flatMap MapWrite.keys, C.RoundTrips h.keys k := by
    intro k hk
    simp only [ws, List.flatMap_cons, List.flatMap_nil, MapWrite.keys, List.map_cons,
      List.map_nil, List.cons_append, List.nil_append, List.append_nil, List.mem_cons,
      List.not_mem_nil, or_false] at hk
    rcases hk with rfl | rfl | rfl <;> exact ⟨_, rfl, rfl⟩
  have hvalues : ∀ v ∈ ws.flatMap MapWrite.values, C.RoundTrips h.values v := by
    intro v hv
    simp only [ws, List.flatMap_cons, List.flatMap_nil, MapWrite.values, List.map_cons,
      List.map_nil, List.cons_append, List.nil_append, List.append_nil, List.mem_cons,
      List.not_mem_nil, or_false] at hv
    rcases hv with rfl | rfl | rfl <;> exact ⟨_, rfl, rfl⟩
  have hempty : d.store.Proper := fun _ _ hc => by simp [d, Store.get?] at hc
  -- the library's codec reads replies as the handle does
  exact ⟨⟨rfl, rfl, hinj, hkeys, hvalues, hempty, rfl⟩,
    map_views_follow_reference rfl rfl hinj hkeys hvalues hempty rfl⟩

end OrderedState
