import OrderedState.Proofs.ByteMap
import OrderedState.Proofs.Locality

/-!
# The store is a map of containers, read through its history

What the store answers at an address is fixed by the requests that succeeded there before, in
order. Their effect is a `View` of the address, moved by `View.step` from the empty view:

* the value is that of the last `ValueUpdate` since the last `Clear`, or none;
* the items are those of the last `ListUpdate` since the last `Clear` (or none), followed by
  the items of every later `ListAdd`/`ListAddAll`: one for a `Value` payload, all of a
  `Values` payload;
* a user key has the value of the last `MapPut`/`MapPutAll` entry for it since the last
  `Clear`, a later entry of one batch over an earlier one, unless a `MapRemove` of the key
  came after.

`Answers v r res` says what the store answers to `r` at an address showing `v`. A payload of a
shape the request type does not take is refused first. Then a request that addresses one kind
(all but `Clear`) and has something to do fails when the address holds a container of another
kind; a `ListAdd`/`ListAddAll` or `MapPut`/`MapPutAll` with nothing to add succeeds whatever
the address holds. Every other request succeeds: a write with `done`, a read with what the
view shows, and `MapIter` with the map's entries, one per live key in ascending byte order.

`Answers` leaves one answer at a view that shows one kind at most (`Answers.unique`): a map
iteration is fixed by its values because two sorted entry lists with the same values are one
list.

The store itself keeps its containers `Proper` (no empty list or map, map keys in order), and
what an address holds is seen through `View.of`. One lemma per family of request types shows
that `Store.apply` answers as the view says and moves the view of its address by `View.step`
(`stepsAs_apply`); `executeBatch_view` carries that along a run, and
`store_answers_from_history` reads off every request's answer from the history of its address.
-/

namespace OrderedState

/-! ## What a request gives the store -/

namespace Payload

/-- The items a `ListAdd` or `ListAddAll` appends: one for a `Value` payload, all of a `Values`
payload. -/
def added : Payload → List Bytes
  | .value v => [v]
  | .values vs => vs
  | _ => []

/-- The entries a `MapPut` or `MapPutAll` writes, in order. -/
def written : Payload → List (Bytes × Bytes)
  | .entry k v => [(k, v)]
  | .entries es => es
  | _ => []

end Payload

/-- Whether the store takes a payload for a request type. A request type that reads no payload
takes any; `ListAdd` and `ListAddAll` take one item or many, `MapPut` and `MapPutAll` one entry
or many. -/
def RequestType.takes : RequestType → Payload → Bool
  | .valueUpdate, .value _ => true
  | .listAdd, .value _ | .listAdd, .values _ => true
  | .listAddAll, .value _ | .listAddAll, .values _ => true
  | .listUpdate, .values _ => true
  | .mapGet, .userKey _ | .mapContains, .userKey _ | .mapRemove, .userKey _ => true
  | .mapPut, .entry .. | .mapPut, .entries _ => true
  | .mapPutAll, .entry .. | .mapPutAll, .entries _ => true
  | .valueUpdate, _ | .listAdd, _ | .listAddAll, _ | .listUpdate, _ => false
  | .mapGet, _ | .mapContains, _ | .mapRemove, _ | .mapPut, _ | .mapPutAll, _ => false
  | .clear, _ | .valueGet, _ | .listGet, _ | .mapIter, _ | .mapIsEmpty, _ => true

/-- A `ListAdd`, `ListAddAll`, `MapPut` or `MapPutAll` with nothing to add: the store answers it
without looking at the address. -/
def Request.addsNothing (r : Request) : Bool :=
  match r.requestType with
  | .listAdd | .listAddAll => r.payload.added.isEmpty
  | .mapPut | .mapPutAll => r.payload.written.isEmpty
  | _ => false

/-- The word for a kind of contents in the store's error texts. -/
def StateKind.word : StateKind → String
  | .value => "value"
  | .list => "list"
  | .map => "map"

/-- The store's error for a request that finds a container of another kind. -/
def kindError (r : Request) (held want : StateKind) : StateError :=
  .store ("state '" ++ r.state ++ "' holds a " ++ held.word ++ " where a " ++ want.word ++
    " was expected")

/-! ## The view of an address -/

/-- What one address shows: the value a `ValueGet` reads, the items a `ListGet` reads, and the
value of each user key of the map. -/
@[ext] structure View where
  value : Option Bytes
  items : List Bytes
  entry : Bytes → Option Bytes

namespace View

/-- An address that holds nothing. -/
def empty : View := ⟨none, [], fun _ => none⟩

/-- What one successful request does to the view of its address. Reads change nothing. -/
def step (v : View) (r : Request) : View :=
  match r.requestType, r.payload with
  | .clear, _ => empty
  | .valueUpdate, .value b => { v with value := some b }
  | .listUpdate, .values vs => { v with items := vs }
  | .listAdd, p | .listAddAll, p => { v with items := v.items ++ p.added }
  | .mapPut, p | .mapPutAll, p =>
    { v with entry := fun k => (p.written.reverse.lookup k).or (v.entry k) }
  | .mapRemove, .userKey k => { v with entry := fun k' => if k' = k then none else v.entry k' }
  | _, _ => v

/-- The view after a history of successful requests at one address, oldest first. -/
def after (hs : List Request) : View := hs.foldl step empty

/-- The kinds of container a view shows. -/
def Holds (v : View) : StateKind → Prop
  | .value => v.value ≠ none
  | .list => v.items ≠ []
  | .map => ∃ k, v.entry k ≠ none

/-- A request finds no container of another kind than the one it addresses. -/
def Fits (v : View) (r : Request) : Prop :=
  ∀ held want, r.requestType.kind? = some want → v.Holds held → held = want

/-- The view shows one kind of container at most. -/
def Exclusive (v : View) : Prop := ∀ k k', v.Holds k → v.Holds k' → k = k'

end View

/-- The successful answer of a request at an address showing `v`. -/
inductive Replies (v : View) (r : Request) : Response → Prop
  /-- A write answers `done`. -/
  | done : r.requestType.isReadOnly = false → Replies v r .done
  | valueGet : r.requestType = .valueGet → Replies v r (.value v.value)
  | listGet : r.requestType = .listGet → Replies v r (.values v.items)
  | mapGet {k : Bytes} : r.requestType = .mapGet → r.payload = .userKey k →
      Replies v r (.value (v.entry k))
  | mapContains {k : Bytes} : r.requestType = .mapContains → r.payload = .userKey k →
      Replies v r (.bool (v.entry k).isSome)
  /-- One entry per live key, keys strictly ascending, each with its value. -/
  | mapIter {es : List (Bytes × Bytes)} : r.requestType = .mapIter →
      ByteMap.Sorted es → (∀ k, es.lookup k = v.entry k) → Replies v r (.entries es)
  | mapIsEmpty {b : Bool} : r.requestType = .mapIsEmpty →
      (b = true ↔ ∀ k, v.entry k = none) → Replies v r (.bool b)

/-- What the store answers to `r` at an address showing `v`. -/
inductive Answers (v : View) (r : Request) : Except StateError Response → Prop
  /-- A payload the request type does not take is refused before anything else. -/
  | malformed : r.requestType.takes r.payload = false →
      Answers v r (.error (Store.malformed r))
  /-- A request with something to do fails on a container of another kind. -/
  | conflict {held want : StateKind} : r.requestType.takes r.payload = true →
      r.addsNothing = false → r.requestType.kind? = some want → v.Holds held →
      held ≠ want → Answers v r (.error (kindError r held want))
  /-- Every other request succeeds, with the answer the view gives. -/
  | reply {resp : Response} : r.requestType.takes r.payload = true →
      (r.addsNothing = true ∨ v.Fits r) → Replies v r resp → Answers v r (.ok resp)

/-- The requests of a run that succeeded at address `a`, in order, from the run's requests `rs`
and their results. -/
def succeededAt (a : Address) (rs : List Request) (results : List (Except StateError Response)) :
    List Request :=
  ((rs.zip results).filter fun p => p.1.address == a && p.2.isOk).map (·.1)

/-! ## What the store holds, through the view -/

namespace Contents

/-- The kind of container. -/
def kind : Contents → StateKind
  | .value _ => .value
  | .list _ => .list
  | .map _ => .map

/-- What the store keeps at an address: never an empty list or map, and a map's keys strictly
ascending. -/
def Proper : Contents → Prop
  | .value _ => True
  | .list items => items ≠ []
  | .map m => m ≠ [] ∧ m.Sorted

end Contents

namespace View

/-- The view of what an address holds. -/
def of : Option Contents → View
  | none => empty
  | some (.value b) => { empty with value := some b }
  | some (.list items) => { empty with items := items }
  | some (.map m) => { empty with entry := m.get? }

theorem not_holds_empty (k : StateKind) : ¬ empty.Holds k := by
  cases k <;> simp [Holds, empty]

/-- Proper contents show their own kind and no other. -/
theorem holds_of_proper {c : Contents} (hc : c.Proper) (k : StateKind) :
    (of (some c)).Holds k ↔ k = c.kind := by
  cases c with
  | value b => cases k <;> simp [Holds, of, empty, Contents.kind]
  | list items =>
    simp only [Contents.Proper] at hc
    cases k <;> simp [Holds, of, empty, Contents.kind, hc]
  | map m =>
    have hne : ∃ k, m.get? k ≠ none := by
      obtain ⟨⟨k, v⟩, rest, rfl⟩ := List.exists_cons_of_ne_nil hc.1
      exact ⟨k, by simp [ByteMap.get?_cons]⟩
    cases k <;> simp [Holds, of, empty, Contents.kind] at hne ⊢
    exact hne

/-- What the store holds shows one kind at most. -/
theorem exclusive_of {g : Option Contents} (hg : ∀ c, g = some c → c.Proper) :
    (of g).Exclusive := by
  intro k k' hk hk'
  cases g with
  | none => exact absurd hk (not_holds_empty k)
  | some c =>
    rw [holds_of_proper (hg c rfl)] at hk hk'
    rw [hk, hk']

theorem fits_none (r : Request) : (of none).Fits r := by
  intro held want _ hh
  exact absurd hh (not_holds_empty held)

theorem fits_some {c : Contents} (hc : c.Proper) {r : Request}
    (hk : r.requestType.kind? = some c.kind) : (of (some c)).Fits r := by
  intro held want hw hh
  rw [hk] at hw
  cases hw
  exact (holds_of_proper hc held).mp hh

theorem fits_of_kind_none {r : Request} (h : r.requestType.kind? = none) (v : View) :
    v.Fits r := by
  intro held want hw
  rw [h] at hw
  cases hw

theorem step_read {r : Request} (h : r.requestType.isReadOnly = true) (v : View) :
    v.step r = v := by
  unfold step
  cases hr : r.requestType <;> simp [hr, RequestType.isReadOnly] at h ⊢

end View

/-! ## The answer is determined -/

section
variable {v : View} {r : Request}

/-- A view gives one successful answer: the request type picks the reply, and two sorted entry
lists with the same values are one list. -/
theorem Replies.unique {x y : Response} (hx : Replies v r x) (hy : Replies v r y) : x = y := by
  cases hx with
  | mapIter h hs hl =>
    cases hy with
    | mapIter _ hs' hl' =>
      rw [ByteMap.eq_of_get? hs hs' fun k => (hl k).trans (hl' k).symm]
    | _ => simp_all [RequestType.isReadOnly]
  | mapIsEmpty h hb =>
    cases hy with
    | mapIsEmpty _ hb' =>
      rw [Bool.eq_iff_iff.mpr (hb.trans hb'.symm)]
    | _ => simp_all [RequestType.isReadOnly]
  | _ => cases hy <;> simp_all [RequestType.isReadOnly]

/-- At a view that shows one kind at most, `Answers` fixes the answer. -/
theorem Answers.unique {x y : Except StateError Response} (hv : v.Exclusive)
    (hx : Answers v r x) (hy : Answers v r y) : x = y := by
  cases hx with
  | malformed ht =>
    cases hy with
    | malformed _ => rfl
    | conflict ht' => simp_all
    | reply ht' => simp_all
  | conflict ht hn hw hh hne =>
    cases hy with
    | malformed ht' => simp_all
    | conflict _ _ hw' hh' _ =>
      rw [hw] at hw'
      cases hw'
      rw [hv _ _ hh hh']
    | reply _ hfit _ =>
      rcases hfit with hn' | hfit
      · simp_all
      · exact absurd (hfit _ _ hw hh) hne
  | reply ht hfit hr =>
    cases hy with
    | malformed ht' => simp_all
    | conflict _ hn' hw' hh' hne' =>
      rcases hfit with hn | hfit
      · simp_all
      · exact absurd (hfit _ _ hw' hh') hne'
    | reply _ _ hr' => rw [Replies.unique hr hr']

end

namespace Store

/-- Every address holds proper contents. -/
def Proper (s : Store) : Prop := ∀ a c, s.get? a = some c → c.Proper

theorem wrongContents_eq (r : Request) (want : StateKind) (c : Contents) :
    wrongContents r want.word c = kindError r c.kind want := by
  cases c <;> rfl

/-- One request, seen at its address: it answers as the view there says, and a success leaves
proper contents there whose view is the old view moved by the request. -/
def StepsAs (s : Store) (r : Request) : Except StateError (Response × Store) → Prop
  | .error e => Answers (View.of (s.get? r.address)) r (.error e)
  | .ok (resp, s') => Answers (View.of (s.get? r.address)) r (.ok resp) ∧
      (∀ c, s'.get? r.address = some c → c.Proper) ∧
      View.of (s'.get? r.address) = (View.of (s.get? r.address)).step r

variable {s : Store} {r : Request}

/-- Counting a request changes no contents. -/
@[simp] theorem get?_count (s : Store) (n : Nat) (a : Address) :
    ({ s with executed := n } : Store).get? a = s.get? a := rfl

theorem proper_at_set {a : Address} {c : Contents} (hc : c.Proper) :
    ∀ c', (s.set a c).get? a = some c' → c'.Proper := by
  intro c' h
  rw [get?_set_self] at h
  cases h
  exact hc

/-- A read that succeeds leaves the store as it was. -/
theorem stepsAs_read (hs : s.Proper) (hro : r.requestType.isReadOnly = true) {resp : Response}
    (ha : Answers (View.of (s.get? r.address)) r (.ok resp)) : StepsAs s r (.ok (resp, s)) :=
  ⟨ha, hs _, (View.step_read hro _).symm⟩

@[simp] theorem stepsAs_ok (resp : Response) (s' : Store) :
    StepsAs s r (.ok (resp, s')) ↔ Answers (View.of (s.get? r.address)) r (.ok resp) ∧
      (∀ c, s'.get? r.address = some c → c.Proper) ∧
      View.of (s'.get? r.address) = (View.of (s.get? r.address)).step r := Iff.rfl

/-- Contents of another kind than the request's refuse it. The kind comes first, so that the
goal's word for it is read as that kind's. -/
theorem stepsAs_conflict (want : StateKind) (hs : s.Proper) {c : Contents}
    (hc : s.get? r.address = some c) (hw : r.requestType.kind? = some want) (hne : c.kind ≠ want)
    (ht : r.requestType.takes r.payload = true) (hn : r.addsNothing = false) :
    StepsAs s r (.error (wrongContents r want.word c)) := by
  simp only [StepsAs, hc, wrongContents_eq]
  exact .conflict ht hn hw ((View.holds_of_proper (hs _ _ hc) _).mpr rfl) hne

theorem stepsAs_clear (h : r.requestType = .clear) : StepsAs s r (s.apply r) := by
  unfold apply
  rw [h]
  dsimp only
  refine (stepsAs_ok _ _).mpr
    ⟨.reply (by rw [h]; rfl) (.inr ?_) (.done (by rw [h]; rfl)), by simp, ?_⟩
  · exact View.fits_of_kind_none (by rw [h]; rfl) _
  · simp [View.of, View.step, h]

theorem stepsAs_valueUpdate (hs : s.Proper) (h : r.requestType = .valueUpdate) :
    StepsAs s r (s.apply r) := by
  have hw : r.requestType.kind? = some .value := by rw [h]; rfl
  have hd : r.requestType.isReadOnly = false := by rw [h]; rfl
  unfold apply
  rw [h]
  dsimp only
  split
  · next b hp =>
    have ht : r.requestType.takes r.payload = true := by rw [h, hp]; rfl
    have hv : ∀ g : Option Contents, (g = none ∨ ∃ b', g = some (.value b')) →
        View.of (some (.value b)) = (View.of g).step r := by
      rintro g (rfl | ⟨b', rfl⟩) <;> simp [View.of, View.step, h, hp]
    split
    · next hc =>
      refine (stepsAs_ok _ _).mpr ⟨.reply ht (.inr ?_) (.done hd), proper_at_set trivial, ?_⟩
      · rw [hc]; exact View.fits_none r
      · rw [get?_set_self, hc]; exact hv none (.inl rfl)
    · next b' hc =>
      refine (stepsAs_ok _ _).mpr ⟨.reply ht (.inr ?_) (.done hd), proper_at_set trivial, ?_⟩
      · rw [hc]; exact View.fits_some (c := .value b') trivial hw
      · rw [get?_set_self, hc]; exact hv _ (.inr ⟨b', rfl⟩)
    · next c hc₁ hc =>
      exact stepsAs_conflict .value hs hc hw (by cases c <;> simp_all [Contents.kind]) ht
        (by simp [Request.addsNothing, h])
  · next hp =>
    exact .malformed (by rw [h]; cases hq : r.payload <;> simp_all [RequestType.takes])

theorem stepsAs_valueGet (hs : s.Proper) (h : r.requestType = .valueGet) :
    StepsAs s r (s.apply r) := by
  have hw : r.requestType.kind? = some .value := by rw [h]; rfl
  have hro : r.requestType.isReadOnly = true := by rw [h]; rfl
  have ht : r.requestType.takes r.payload = true := by rw [h]; rfl
  unfold apply
  rw [h]
  dsimp only
  split
  · next hc =>
    refine stepsAs_read hs hro (.reply ht (.inr ?_) ?_) <;> rw [hc]
    · exact View.fits_none r
    · exact .valueGet h
  · next b hc =>
    refine stepsAs_read hs hro (.reply ht (.inr ?_) ?_) <;> rw [hc]
    · exact View.fits_some (c := .value b) trivial hw
    · exact .valueGet h
  · next c hc₁ hc =>
    exact stepsAs_conflict .value hs hc hw (by cases c <;> simp_all [Contents.kind]) ht
      (by simp [Request.addsNothing, h])

theorem stepsAs_listGet (hs : s.Proper) (h : r.requestType = .listGet) :
    StepsAs s r (s.apply r) := by
  have hw : r.requestType.kind? = some .list := by rw [h]; rfl
  have hro : r.requestType.isReadOnly = true := by rw [h]; rfl
  have ht : r.requestType.takes r.payload = true := by rw [h]; rfl
  unfold apply
  rw [h]
  dsimp only
  split
  · next hc =>
    refine stepsAs_read hs hro (.reply ht (.inr ?_) ?_) <;> rw [hc]
    · exact View.fits_none r
    · exact .listGet h
  · next items hc =>
    refine stepsAs_read hs hro (.reply ht (.inr ?_) ?_) <;> rw [hc]
    · exact View.fits_some (hs _ _ hc) hw
    · exact .listGet h
  · next c hc₁ hc =>
    exact stepsAs_conflict .list hs hc hw (by cases c <;> simp_all [Contents.kind]) ht
      (by simp [Request.addsNothing, h])

theorem stepsAs_listAdd (hs : s.Proper)
    (h : r.requestType = .listAdd ∨ r.requestType = .listAddAll) : StepsAs s r (s.apply r) := by
  have hw : r.requestType.kind? = some .list := by rcases h with h | h <;> rw [h] <;> rfl
  have hd : r.requestType.isReadOnly = false := by rcases h with h | h <;> rw [h] <;> rfl
  have hadd : r.addsNothing = r.payload.added.isEmpty := by
    rcases h with h | h <;> simp [Request.addsNothing, h]
  have hstep : ∀ v : View, v.step r = { v with items := v.items ++ r.payload.added } := by
    intro v
    rcases h with h | h <;> simp [View.step, h]
  unfold apply
  -- both request types run the same code
  rcases h with h | h <;> rw [h] <;> dsimp only
  all_goals
    split
    · next hi =>
      refine .malformed ?_
      rw [h]
      cases hq : r.payload <;> simp_all [RequestType.takes]
    · next hi =>
      have ht : r.requestType.takes r.payload = true ∧ r.payload.added = [] := by
        rw [h]; cases hq : r.payload <;> simp_all [RequestType.takes, Payload.added]
      refine (stepsAs_ok _ _).mpr
        ⟨.reply ht.1 (.inl (by simp [hadd, ht.2])) (.done hd), hs _, ?_⟩
      simp [hstep, ht.2]
    · next items hne hi =>
      have ht : r.requestType.takes r.payload = true ∧ r.payload.added = items := by
        rw [h]; cases hq : r.payload <;> simp_all [RequestType.takes, Payload.added]
      have hn : r.addsNothing = false := by simpa [hadd, ht.2] using hne
      split
      · next hc =>
        refine (stepsAs_ok _ _).mpr
          ⟨.reply ht.1 (.inr (hc ▸ View.fits_none r)) (.done hd), proper_at_set hne, ?_⟩
        simp [hc, hstep, ht.2, View.of, View.empty]
      · next old hc =>
        refine (stepsAs_ok _ _).mpr
          ⟨.reply ht.1 (.inr (hc ▸ View.fits_some (hs _ _ hc) hw)) (.done hd), ?_, ?_⟩
        · exact proper_at_set (by simpa [Contents.Proper] using fun (_ : old = []) => hne)
        · simp [hc, hstep, ht.2, View.of]
      · next c hc₁ hc =>
        exact stepsAs_conflict .list hs hc hw (by cases c <;> simp_all [Contents.kind]) ht.1 hn


theorem stepsAs_listUpdate (hs : s.Proper) (h : r.requestType = .listUpdate) :
    StepsAs s r (s.apply r) := by
  have hw : r.requestType.kind? = some .list := by rw [h]; rfl
  have hd : r.requestType.isReadOnly = false := by rw [h]; rfl
  have hn : r.addsNothing = false := by simp [Request.addsNothing, h]
  unfold apply
  rw [h]
  dsimp only
  split
  · next items hp =>
    have ht : r.requestType.takes r.payload = true := by rw [h, hp]; rfl
    have hstep : ∀ v : View, v.step r = { v with items := items } := by
      intro v; simp [View.step, h, hp]
    split
    · next b hc => exact stepsAs_conflict .list hs hc hw (by simp [Contents.kind]) ht hn
    · next m hc => exact stepsAs_conflict .list hs hc hw (by simp [Contents.kind]) ht hn
    · next g hc₁ hc₂ =>
      -- the address holds nothing or a list, so its view shows items at most
      have hold : (View.of (s.get? r.address)).Fits r ∧
          ∃ old, View.of (s.get? r.address) = { View.empty with items := old } := by
        cases hc : s.get? r.address with
        | none => exact ⟨View.fits_none r, [], rfl⟩
        | some c =>
          cases c with
          | value b => exact absurd hc (hc₁ b)
          | list old => exact ⟨View.fits_some (hs _ _ hc) hw, old, rfl⟩
          | map m => exact absurd hc (hc₂ m)
      obtain ⟨hfits, old, hv⟩ := hold
      split
      · next hnil =>
        -- an empty list removes the container
        refine (stepsAs_ok _ _).mpr ⟨.reply ht (.inr hfits) (.done hd), by simp, ?_⟩
        rw [List.isEmpty_iff.mp hnil] at hstep
        rw [get?_erase_self, hv, hstep]
        rfl
      · next hnil =>
        refine (stepsAs_ok _ _).mpr ⟨.reply ht (.inr hfits) (.done hd), ?_, ?_⟩
        · exact proper_at_set (by simpa [Contents.Proper, List.isEmpty_iff] using hnil)
        · rw [get?_set_self, hv, hstep]
          rfl
  · next hp =>
    exact .malformed (by rw [h]; cases hq : r.payload <;> simp_all [RequestType.takes])

theorem stepsAs_mapLookup (hs : s.Proper)
    (h : r.requestType = .mapGet ∨ r.requestType = .mapContains) : StepsAs s r (s.apply r) := by
  have hw : r.requestType.kind? = some .map := by rcases h with h | h <;> rw [h] <;> rfl
  have hro : r.requestType.isReadOnly = true := by rcases h with h | h <;> rw [h] <;> rfl
  have hn : r.addsNothing = false := by rcases h with h | h <;> simp [Request.addsNothing, h]
  unfold apply
  -- both request types look the key up the same way
  rcases h with h | h <;> rw [h] <;> simp only [↓reduceIte, reduceCtorEq]
  all_goals
    split
    · next k hp =>
      have ht : r.requestType.takes r.payload = true := by rw [h, hp]; rfl
      split
      · next hc =>
        refine stepsAs_read hs hro (.reply ht (.inr (hc ▸ View.fits_none r)) ?_)
        rw [hc]
        first | exact .mapGet h hp | exact .mapContains h hp
      · next m hc =>
        refine stepsAs_read hs hro (.reply ht (.inr (hc ▸ View.fits_some (hs _ _ hc) hw)) ?_)
        rw [hc]
        first | exact .mapGet h hp | exact .mapContains h hp
      · next c hc₁ hc =>
        exact stepsAs_conflict .map hs hc hw (by cases c <;> simp_all [Contents.kind]) ht hn
    · next hp =>
      exact .malformed (by rw [h]; cases hq : r.payload <;> simp_all [RequestType.takes])

theorem stepsAs_mapPut (hs : s.Proper)
    (h : r.requestType = .mapPut ∨ r.requestType = .mapPutAll) : StepsAs s r (s.apply r) := by
  have hw : r.requestType.kind? = some .map := by rcases h with h | h <;> rw [h] <;> rfl
  have hd : r.requestType.isReadOnly = false := by rcases h with h | h <;> rw [h] <;> rfl
  have hadd : r.addsNothing = r.payload.written.isEmpty := by
    rcases h with h | h <;> simp [Request.addsNothing, h]
  have hstep : ∀ v : View, v.step r =
      { v with entry := fun k => (r.payload.written.reverse.lookup k).or (v.entry k) } := by
    intro v
    rcases h with h | h <;> simp [View.step, h]
  unfold apply
  -- both request types run the same code
  rcases h with h | h <;> rw [h] <;> dsimp only
  all_goals
    split
    · next hi =>
      refine .malformed ?_
      rw [h]
      cases hq : r.payload <;> simp_all [RequestType.takes]
    · next hi =>
      have ht : r.requestType.takes r.payload = true ∧ r.payload.written = [] := by
        rw [h]; cases hq : r.payload <;> simp_all [RequestType.takes, Payload.written]
      refine (stepsAs_ok _ _).mpr
        ⟨.reply ht.1 (.inl (by simp [hadd, ht.2])) (.done hd), hs _, ?_⟩
      simp [hstep, ht.2]
    · next es hne hi =>
      have ht : r.requestType.takes r.payload = true ∧ r.payload.written = es := by
        rw [h]; cases hq : r.payload <;> simp_all [RequestType.takes, Payload.written]
      have hn : r.addsNothing = false := by simpa [hadd, ht.2] using hne
      split
      · next hc =>
        refine (stepsAs_ok _ _).mpr
          ⟨.reply ht.1 (.inr (hc ▸ View.fits_none r)) (.done hd), ?_, ?_⟩
        · exact proper_at_set
            ⟨ByteMap.insertAll_ne_nil [] hne, ByteMap.insertAll_sorted es ByteMap.sorted_nil⟩
        · simp only [get?_set_self, hc, hstep, ht.2, View.of, View.empty]
          congr 1
          funext k
          simp [ByteMap.get?_insertAll]
      · next m hc =>
        have hm := hs _ _ hc
        refine (stepsAs_ok _ _).mpr
          ⟨.reply ht.1 (.inr (hc ▸ View.fits_some hm hw)) (.done hd), ?_, ?_⟩
        · exact proper_at_set
            ⟨ByteMap.insertAll_ne_nil m hne, ByteMap.insertAll_sorted es hm.2⟩
        · simp only [get?_set_self, hc, hstep, ht.2, View.of, View.empty]
          congr 1
          funext k
          simp [ByteMap.get?_insertAll]
      · next c hc₁ hc =>
        exact stepsAs_conflict .map hs hc hw (by cases c <;> simp_all [Contents.kind]) ht.1 hn

theorem stepsAs_mapRemove (hs : s.Proper) (h : r.requestType = .mapRemove) :
    StepsAs s r (s.apply r) := by
  have hw : r.requestType.kind? = some .map := by rw [h]; rfl
  have hd : r.requestType.isReadOnly = false := by rw [h]; rfl
  have hn : r.addsNothing = false := by simp [Request.addsNothing, h]
  unfold apply
  rw [h]
  dsimp only
  split
  · next k hp =>
    have ht : r.requestType.takes r.payload = true := by rw [h, hp]; rfl
    have hstep : ∀ v : View,
        v.step r = { v with entry := fun k' => if k' = k then none else v.entry k' } := by
      intro v; simp [View.step, h, hp]
    split
    · next hc =>
      refine (stepsAs_ok _ _).mpr
        ⟨.reply ht (.inr (hc ▸ View.fits_none r)) (.done hd), hs _, ?_⟩
      simp [hc, hstep, View.of, View.empty]
    · next m hc =>
      have hm := hs _ _ hc
      have hfits := hc ▸ View.fits_some hm hw
      split
      · next hempty =>
        -- the last key went: the address holds nothing
        refine (stepsAs_ok _ _).mpr ⟨.reply ht (.inr hfits) (.done hd), by simp, ?_⟩
        have hnone := ByteMap.eq_nil_iff_get?.mp (List.isEmpty_iff.mp hempty)
        simp only [get?_erase_self, hc, hstep, View.of, View.empty]
        congr 1
        funext k'
        simpa [ByteMap.get?_erase] using (hnone k').symm
      · next hempty =>
        refine (stepsAs_ok _ _).mpr ⟨.reply ht (.inr hfits) (.done hd), ?_, ?_⟩
        · exact proper_at_set
            ⟨by simpa [List.isEmpty_iff] using hempty, ByteMap.erase_sorted k hm.2⟩
        · simp only [get?_set_self, hc, hstep, View.of, View.empty]
          congr 1
          funext k'
          simp [ByteMap.get?_erase]
    · next c hc₁ hc =>
      exact stepsAs_conflict .map hs hc hw (by cases c <;> simp_all [Contents.kind]) ht hn
  · next hp =>
    exact .malformed (by rw [h]; cases hq : r.payload <;> simp_all [RequestType.takes])

theorem stepsAs_mapIter (hs : s.Proper) (h : r.requestType = .mapIter) :
    StepsAs s r (s.apply r) := by
  have hw : r.requestType.kind? = some .map := by rw [h]; rfl
  have hro : r.requestType.isReadOnly = true := by rw [h]; rfl
  have ht : r.requestType.takes r.payload = true := by rw [h]; rfl
  unfold apply
  rw [h]
  dsimp only
  split
  · next hc =>
    refine stepsAs_read hs hro (.reply ht (.inr (hc ▸ View.fits_none r)) ?_)
    rw [hc]
    exact .mapIter h ByteMap.sorted_nil (fun _ => rfl)
  · next m hc =>
    have hm := hs _ _ hc
    refine stepsAs_read hs hro (.reply ht (.inr (hc ▸ View.fits_some hm hw)) ?_)
    rw [hc]
    exact .mapIter h hm.2 (fun _ => rfl)
  · next c hc₁ hc =>
    exact stepsAs_conflict .map hs hc hw (by cases c <;> simp_all [Contents.kind]) ht
      (by simp [Request.addsNothing, h])

theorem stepsAs_mapIsEmpty (hs : s.Proper) (h : r.requestType = .mapIsEmpty) :
    StepsAs s r (s.apply r) := by
  have hw : r.requestType.kind? = some .map := by rw [h]; rfl
  have hro : r.requestType.isReadOnly = true := by rw [h]; rfl
  have ht : r.requestType.takes r.payload = true := by rw [h]; rfl
  unfold apply
  rw [h]
  dsimp only
  split
  · next hc =>
    refine stepsAs_read hs hro (.reply ht (.inr (hc ▸ View.fits_none r)) ?_)
    rw [hc]
    exact .mapIsEmpty h (by simp [View.of, View.empty])
  · next m hc =>
    have hm := hs _ _ hc
    refine stepsAs_read hs hro (.reply ht (.inr (hc ▸ View.fits_some hm hw)) ?_)
    rw [hc]
    exact .mapIsEmpty h
      (by simp [View.of, View.empty, List.isEmpty_iff, ByteMap.eq_nil_iff_get?])
  · next c hc₁ hc =>
    exact stepsAs_conflict .map hs hc hw (by cases c <;> simp_all [Contents.kind]) ht
      (by simp [Request.addsNothing, h])

/-- Every request answers as the view of its address says, and a success moves that view by
the request. -/
theorem stepsAs_apply (hs : s.Proper) : StepsAs s r (s.apply r) := by
  cases hrt : r.requestType with
  | clear => exact stepsAs_clear hrt
  | valueGet => exact stepsAs_valueGet hs hrt
  | valueUpdate => exact stepsAs_valueUpdate hs hrt
  | listGet => exact stepsAs_listGet hs hrt
  | listAdd => exact stepsAs_listAdd hs (.inl hrt)
  | listAddAll => exact stepsAs_listAdd hs (.inr hrt)
  | listUpdate => exact stepsAs_listUpdate hs hrt
  | mapGet => exact stepsAs_mapLookup hs (.inl hrt)
  | mapContains => exact stepsAs_mapLookup hs (.inr hrt)
  | mapPut => exact stepsAs_mapPut hs (.inl hrt)
  | mapPutAll => exact stepsAs_mapPut hs (.inr hrt)
  | mapRemove => exact stepsAs_mapRemove hs hrt
  | mapIter => exact stepsAs_mapIter hs hrt
  | mapIsEmpty => exact stepsAs_mapIsEmpty hs hrt

/-- One counted request: it answers as the view of its address says, the store stays proper,
and only a success changes a view, that of the request's address. -/
theorem execute_steps (hs : s.Proper) :
    Answers (View.of (s.get? r.address)) r (s.execute r).1 ∧ (s.execute r).2.Proper ∧
      ∀ a, View.of ((s.execute r).2.get? a) =
        if (s.execute r).1.isOk ∧ a = r.address then (View.of (s.get? a)).step r
        else View.of (s.get? a) := by
  -- counting the request changes no contents
  have hc : ({ s with executed := s.executed + 1 } : Store).Proper := hs
  have hsteps := stepsAs_apply (r := r) hc
  simp only [StepsAs, get?_count] at hsteps
  rcases happ : ({ s with executed := s.executed + 1 } : Store).apply r with e | ⟨resp, s'⟩
  · have hex : s.execute r = (.error e, { s with executed := s.executed + 1 }) := by
      simp [execute, happ]
    rw [happ] at hsteps
    rw [hex]
    exact ⟨hsteps, hc, fun a => by simp [Except.isOk, Except.toBool]⟩
  · have hex : s.execute r = (.ok resp, s') := by simp [execute, happ]
    rw [happ] at hsteps
    rw [hex]
    obtain ⟨hans, hprop, hview⟩ := hsteps
    refine ⟨hans, ?_, ?_⟩
    · intro a c hac
      by_cases ha : a = r.address
      · subst ha
        exact hprop c hac
      · rw [get?_apply_ne happ ha] at hac
        exact hs a c hac
    · intro a
      by_cases ha : a = r.address
      · subst ha
        simpa [Except.isOk, Except.toBool] using hview
      · simp [ha, get?_apply_ne happ ha]

/-- Along a run the store stays proper, and each address shows its view before the run moved
by the requests that succeeded there. -/
theorem executeBatch_view (rs : List Request) (hs : s.Proper) :
    (s.executeBatch rs).2.Proper ∧ ∀ a, View.of ((s.executeBatch rs).2.get? a) =
      (succeededAt a rs (s.executeBatch rs).1).foldl View.step (View.of (s.get? a)) := by
  induction rs generalizing s with
  | nil => exact ⟨hs, fun a => rfl⟩
  | cons r rest ih =>
    obtain ⟨-, hprop, hview⟩ := execute_steps (r := r) hs
    obtain ⟨hprop', hview'⟩ := ih hprop
    refine ⟨hprop', fun a => ?_⟩
    simp only [executeBatch, succeededAt, List.zip_cons_cons, List.filter_cons]
    rw [hview', hview a]
    by_cases ha : a = r.address
    · subst ha
      by_cases hok : (s.execute r).1.isOk <;> simp [hok, succeededAt]
    · simp [ha, Ne.symm ha, succeededAt]

end Store

/-- The store answers every request of every run as the history of the request's address
says: whatever came before, the answer to `r` is the one answer `Answers` gives at the view
left by the requests that succeeded at `r`'s address before it. A sequence of single requests
and batches is one batch of all their requests (`Store.executeBatch_append`). -/
theorem store_answers_from_history (pre : List Request) (r : Request) (post : List Request) :
    ∃ res rest, (Store.executeBatch {} (pre ++ r :: post)).1 =
        (Store.executeBatch {} pre).1 ++ res :: rest ∧
      Answers (View.after (succeededAt r.address pre (Store.executeBatch {} pre).1)) r res ∧
      ∀ res', Answers (View.after (succeededAt r.address pre (Store.executeBatch {} pre).1)) r
        res' → res' = res := by
  have hempty : ({} : Store).Proper := fun _ _ h => by simp [Store.get?] at h
  obtain ⟨hprop, hview⟩ := Store.executeBatch_view pre hempty
  -- the history before `r` leaves at its address the view of what the store holds there
  have hv : View.after (succeededAt r.address pre (Store.executeBatch {} pre).1) =
      View.of ((Store.executeBatch {} pre).2.get? r.address) := (hview r.address).symm
  have hans := (Store.execute_steps (r := r) hprop).1
  refine ⟨((Store.executeBatch {} pre).2.execute r).1,
    (((Store.executeBatch {} pre).2.execute r).2.executeBatch post).1, ?_, hv ▸ hans,
    fun res' h' => ?_⟩
  · rw [Store.executeBatch_append]
    rfl
  · rw [hv] at h'
    exact Answers.unique (View.exclusive_of (hprop _)) h' hans

/-- A batch of entries with a repeated key, then an iteration: each key once, in byte order,
with the last value written for it. -/
example :
    (Store.executeBatch {}
      [{ id := 0, key := 0, state := "s", kind := .map, ns := [], requestType := .mapPutAll,
         payload := .entries [([2], [1]), ([1], [2]), ([2], [3])], sequence := 0 },
       { id := 1, key := 0, state := "s", kind := .map, ns := [], requestType := .mapIter,
         payload := .empty, sequence := 1 }]).1 =
      [.ok .done, .ok (.entries [([1], [2]), ([2], [3])])] := by
  rfl

end OrderedState
