import OrderedState.Proofs.Invariant

/-!
# Parked requests wait behind their owner, in record order

Key ownership parks the requests of a record that does not own their key. When the owner's
last request completes, the key passes to the record of the first parked request, and the
requests of that record at the front of the parked line are let through (`complete`). The
hand-over reaches every parked request exactly when each key's parked line is sorted by record
and holds none of its owner's requests.

That holds along every run in which each submission is made under the top-level record or
under the record of a completion being processed (`Machine.Orderly`). The argument is one
invariant, `ParkedOrder`: every key's parked line lists records after its owner's, in order,
and none after the top-level record.

* The top-level record is the newest record with requests, so a request it parks joins the
  end of the line in record order.
* The record of a completion being processed owns its key, so the requests its continuations
  submit are never parked.
* A hand-over drops the new owner's leading run, and in a sorted line everything after that
  run belongs to later records.

`parked_after_owner_in_order` derives from it, for every key of every orderly run, that the
owner has no request parked, that the line is sorted by record with each record's requests in
submission order, and that what a hand-over leaves belongs to later records.

Once a continuation starts a record and submits under it, the order breaks. The new record
parks behind the requests of the older top-level record, and after the continuation the
older record parks more requests behind it. `owner_request_parked` runs this to the
hand-over: the new owner of the key has one of its own requests parked behind a later
record's.
-/

namespace OrderedState

variable {τ : Type}

/-! ## The top-level record -/

/-- The record context of the processing thread's top level, from the current context and the
completions being processed, innermost first: the current context when none is being
processed, else the one the outermost completion restores. -/
def topContext : Option RecordContext → List Frame → Option RecordContext
  | current, [] => current
  | _, fr :: rest => topContext fr.previous rest

theorem topContext_eq_some {current : Option RecordContext} {frames : List Frame}
    {t : RecordContext} (h : topContext current frames = some t) :
    current = some t ∨ ∃ fr ∈ frames, fr.previous = some t := by
  induction frames generalizing current with
  | nil => exact .inl h
  | cons fr rest ih =>
    rcases ih h with h | ⟨fr', hfr', h⟩
    · exact .inr ⟨fr, List.mem_cons_self .., h⟩
    · exact .inr ⟨fr', List.mem_cons_of_mem _ hfr', h⟩

namespace Machine

/-- The record context of the processing thread's top level. -/
def top (m : Machine τ) : Option RecordContext := topContext m.ctl.current m.frames

theorem top_mem_contexts {m : Machine τ} {t : RecordContext} (h : m.top = some t) :
    t ∈ m.contexts :=
  mem_contexts.mpr (topContext_eq_some h)

theorem top_of_frames_nil {m : Machine τ} (h : m.frames = []) : m.top = m.ctl.current := by
  simp [top, topContext, h]

/-- Inside a continuation the current context is not the top level's. -/
theorem top_of_frames_ne_nil {m : Machine τ} (h : m.frames ≠ []) (c : Controller τ) :
    ({ m with ctl := c } : Machine τ).top = m.top := by
  obtain ⟨fr, rest, hfr⟩ := List.exists_cons_of_ne_nil h
  simp [top, topContext, hfr]

/-- The current record is the top-level record or the record of a completion being processed,
not one a continuation started. -/
def InOwnRecord (m : Machine τ) : Prop :=
  m.frames = [] ∨ ∃ fr ∈ m.frames, m.ctl.current.map (·.record) = some fr.record

/-- The machines reached by runs in which every submission is made in the processing thread's
own record: at the top level, or by a continuation under the record of its completion.
Continuations may start records, but do not submit under them. -/
inductive Orderly (cfg : Config) : Machine τ → Prop where
  | start : Orderly cfg (start cfg)
  | internal {m m' : Machine τ} : Orderly cfg m → Internal m m' → Orderly cfg m'
  | setKey {m : Machine τ} (key : Nat) : Orderly cfg m →
      Orderly cfg { m with ctl := m.ctl.setCurrentKey key }
  | submit {m : Machine τ} (now : Nat) (state : String) (kind : StateKind) (rt : RequestType)
      (ns : Bytes) (payload : Payload) (promise : τ) {c : Controller τ} :
      Orderly cfg m → m.InOwnRecord → m.ctl.submit now state kind rt ns payload promise = .ok c →
      Orderly cfg { m with ctl := c }
  | shut {m : Machine τ} : Orderly cfg m → Orderly cfg { m with ctl := m.ctl.shut }

theorem Orderly.reachable {cfg : Config} {m : Machine τ} (h : Orderly cfg m) :
    Reachable cfg m := by
  induction h with
  | start => exact .start
  | internal _ hi ih => exact .step ih (.internal hi)
  | setKey key _ ih => exact .step ih (.setKey _ key)
  | submit now state kind rt ns payload promise _ _ hs ih =>
    exact .step ih (.submit _ now state kind rt ns payload promise _ hs)
  | shut _ ih => exact .step ih (.shut _)

end Machine

/-! ## Completing at a key -/

namespace Ownership

theorem complete_of_unowned {o : Ownership} {record : Nat} {e : RecordEntry}
    (he : o.records.get? record = some e) (hp : ¬1 < e.pending) (ho : o.owners.get? e.key = none) :
    o.complete record = ({ o with records := o.records.erase record }, []) := by
  simp [complete, he, hp, ho]

/-- After a completion is counted, every owner is an old owner with its parked line, or the
record at the front of an old owner's line, with the line past that record's leading
requests. -/
theorem complete_owner_cases (o : Ownership) (record k : Nat) (ko' : KeyOwner)
    (h : (o.complete record).1.owners.get? k = some ko') :
    o.owners.get? k = some ko' ∨
      ∃ ko next x tail, o.owners.get? k = some ko ∧ ko.parked = (next, x) :: tail ∧
        ko' = ⟨next, ko.parked.dropWhile (·.1 = next)⟩ := by
  cases he : o.records.get? record with
  | none => simp only [complete, he] at h; exact .inl h
  | some e =>
    by_cases hp : 1 < e.pending
    · rw [complete_of_later he hp] at h
      exact .inl h
    cases ho : o.owners.get? e.key with
    | none =>
      rw [complete_of_unowned he hp ho] at h
      exact .inl h
    | some ko =>
      cases hk : ko.parked with
      | nil =>
        rw [complete_of_free he hp ho hk] at h
        by_cases hkey : e.key = k
        · subst hkey
          simp at h
        · rw [Table.get?_erase_ne _ hkey] at h
          exact .inl h
      | cons y tail =>
        obtain ⟨next, x⟩ := y
        rw [complete_of_pass he hp ho hk] at h
        by_cases hkey : e.key = k
        · subst hkey
          rw [Table.get?_set_self] at h
          cases h
          exact .inr ⟨ko, next, x, tail, ho, hk, by rw [hk]⟩
        · rw [Table.get?_set_ne _ _ hkey] at h
          exact .inl h

end Ownership

/-! ## Lines sorted by record -/

/-- In a line sorted by record whose records are at least `next`, everything after the leading
run of `next` belongs to later records. -/
theorem lt_of_mem_dropWhile {α : Type} {l : List (Nat × α)} {next : Nat}
    (hs : (l.map (·.1)).Pairwise (· ≤ ·)) (hge : ∀ y ∈ l, next ≤ y.1) :
    ∀ y ∈ l.dropWhile (·.1 = next), next < y.1 := by
  induction l with
  | nil => simp
  | cons z rest ih =>
    intro y hy
    simp only [List.map_cons, List.pairwise_cons, List.mem_map] at hs
    by_cases hz : z.1 = next
    · rw [List.dropWhile_cons_of_pos (by simpa using hz)] at hy
      exact ih hs.2 (fun y hy => hge y (List.mem_cons_of_mem _ hy)) y hy
    · rw [List.dropWhile_cons_of_neg (by simpa using hz)] at hy
      have hlt : next < z.1 := Nat.lt_of_le_of_ne (hge z (List.mem_cons_self ..)) (Ne.symm hz)
      rcases List.mem_cons.mp hy with rfl | hy
      · exact hlt
      · exact Nat.lt_of_lt_of_le hlt (hs.1 y.1 ⟨y, hy, rfl⟩)

/-- A key's parked line lists records after its owner's, in order, none after record `top`. -/
def KeyOwner.Lined (ko : KeyOwner) (top : Nat) : Prop :=
  ko.record ≤ top ∧ (∀ x ∈ ko.parked, ko.record < x.1 ∧ x.1 ≤ top) ∧
    (ko.parked.map (·.1)).Pairwise (· ≤ ·)

namespace KeyOwner.Lined

variable {ko : KeyOwner} {top : Nat}

theorem mono (h : ko.Lined top) {top' : Nat} (ht : top ≤ top') : ko.Lined top' :=
  ⟨Nat.le_trans h.1 ht, fun x hx => ⟨(h.2.1 x hx).1, Nat.le_trans (h.2.1 x hx).2 ht⟩, h.2.2⟩

theorem fresh {record : Nat} (h : record ≤ top) : (⟨record, []⟩ : KeyOwner).Lined top :=
  ⟨h, by simp, by simp⟩

/-- The top-level record parks a request at the end of another record's line. -/
theorem park (h : ko.Lined top) (hne : ko.record ≠ top) (r : Request) :
    ({ ko with parked := ko.parked ++ [(top, r)] } : KeyOwner).Lined top := by
  refine ⟨h.1, fun x hx => ?_, ?_⟩
  · rcases List.mem_append.mp hx with hx | hx
    · exact h.2.1 x hx
    · rw [List.mem_singleton.mp hx]
      exact ⟨Nat.lt_of_le_of_ne h.1 hne, Nat.le_refl _⟩
  · rw [List.map_append, List.pairwise_append]
    refine ⟨h.2.2, by simp, fun a ha b hb => ?_⟩
    rw [List.mem_singleton.mp hb]
    obtain ⟨x, hx, rfl⟩ := List.mem_map.mp ha
    exact (h.2.1 x hx).2

/-- Handing the key to the record at the front keeps the line after the new owner. -/
theorem pass (h : ko.Lined top) {next : Nat} {x : Request} {tail : List (Nat × Request)}
    (hk : ko.parked = (next, x) :: tail) :
    (⟨next, ko.parked.dropWhile (·.1 = next)⟩ : KeyOwner).Lined top := by
  have hhead : (next, x) ∈ ko.parked := by rw [hk]; exact List.mem_cons_self ..
  -- every record in the line is at least the front one
  have hge : ∀ y ∈ ko.parked, next ≤ y.1 := by
    have hs := h.2.2
    rw [hk, List.map_cons, List.pairwise_cons] at hs
    intro y hy
    rw [hk] at hy
    rcases List.mem_cons.mp hy with rfl | hy
    · exact Nat.le_refl _
    · exact hs.1 y.1 (List.mem_map_of_mem hy)
  have hsub : (ko.parked.dropWhile (·.1 = next)).Sublist ko.parked := List.dropWhile_sublist _
  refine ⟨(h.2.1 _ hhead).2, fun y hy => ⟨?_, (h.2.1 y (hsub.subset hy)).2⟩, ?_⟩
  · exact lt_of_mem_dropWhile h.2.2 hge y hy
  · exact h.2.2.sublist (hsub.map _)

end KeyOwner.Lined

/-! ## The invariant -/

namespace Machine

/-- Every key's parked line lists records after its owner's, in order, none after the
top-level record. -/
def ParkedOrder (m : Machine τ) : Prop :=
  ∀ k ko, m.ctl.ownership.owners.get? k = some ko → ∃ t, m.top = some t ∧ ko.Lined t.record

theorem parkedOrder_start (cfg : Config) : (start cfg : Machine τ).ParkedOrder := by
  intro k ko hko
  simp [start] at hko

namespace ParkedOrder

variable {m : Machine τ}

/-- A transition that keeps the owners and the top level keeps the invariant. -/
theorem of_eq {m' : Machine τ} (h : m.ParkedOrder)
    (ho : m'.ctl.ownership.owners = m.ctl.ownership.owners) (ht : m'.top = m.top) :
    m'.ParkedOrder := by
  intro k ko hko
  rw [ho] at hko
  rw [ht]
  exact h k ko hko

/-- Starting a record: at the top level the new record is above every record in use. -/
theorem setKey (h : m.ParkedOrder) (hi : m.Inv []) (key : Nat) :
    ({ m with ctl := m.ctl.setCurrentKey key } : Machine τ).ParkedOrder := by
  by_cases hnil : m.frames = []
  · intro k ko hko
    obtain ⟨t, ht, hline⟩ := h k ko hko
    have hlt : t.record < m.ctl.nextRecord := hi.context_lt t (top_mem_contexts ht)
    refine ⟨⟨m.ctl.nextRecord, key⟩, ?_, hline.mono (Nat.le_of_lt hlt)⟩
    simp [top, topContext, hnil, Controller.setCurrentKey]
  · exact h.of_eq rfl (top_of_frames_ne_nil hnil _)

/-- Taking a completion keeps the owners, and the top level is the one the new completion
restores or keeps. -/
theorem begin (h : m.ParkedOrder) {now : Nat} {comp : Completion} {f : InFlight τ}
    {previous : Option RecordContext} {c : Controller τ}
    (hb : m.ctl.beginCompletion now = some (comp, f, previous, c)) :
    ({ m with
        ctl := c, frames := ⟨f.record, previous⟩ :: m.frames, taken := m.taken ++ [comp] } :
      Machine τ).ParkedOrder := by
  obtain ⟨pre, rest, -, -, -, hprev, rfl⟩ := Controller.beginCompletion_eq_some hb
  refine h.of_eq (by simp) ?_
  simp [top, topContext, hprev]

/-- Ending a completion: the key of its record may pass on, to the front of its line. -/
theorem finish (h : m.ParkedOrder) {fr : Frame} {rest : List Frame} (hfr : m.frames = fr :: rest)
    (now : Nat) :
    ({ m with ctl := m.ctl.endCompletion now fr.record fr.previous, frames := rest } :
      Machine τ).ParkedOrder := by
  obtain ⟨qs, a, s, heq⟩ := Controller.foldl_issue_eq_with
    { m.ctl with current := fr.previous, ownership := (m.ctl.ownership.complete fr.record).1 } now
    (m.ctl.ownership.complete fr.record).2
  rw [Controller.endCompletion_eq, heq]
  intro k ko' hko'
  have htop : topContext fr.previous rest = m.top := by simp [top, hfr, topContext]
  simp only [top, htop]
  rcases Ownership.complete_owner_cases _ _ k ko' hko' with
    hold | ⟨ko, next, x, tail, hko, hk, rfl⟩
  · exact h k ko' hold
  · obtain ⟨t, ht, hline⟩ := h k ko hko
    exact ⟨t, ht, hline.pass hk⟩

/-- A submission in the processing thread's own record: the top-level record parks at the end
of a line, and a completion's record owns its key. -/
theorem submit (h : m.ParkedOrder) (hi : m.Inv []) (hown : m.InOwnRecord) {now : Nat}
    {state : String} {kind : StateKind} {rt : RequestType} {ns : Bytes} {payload : Payload}
    {promise : τ} {c : Controller τ}
    (hs : m.ctl.submit now state kind rt ns payload promise = .ok c) :
    ({ m with ctl := c } : Machine τ).ParkedOrder := by
  obtain ⟨ctx, hctx, hc⟩ := Controller.submit_eq_ok hs
  -- the submission leaves the current record and changes ownership by admitting its request
  obtain ⟨hcur, howners⟩ : c.current = m.ctl.current ∧ c.ownership =
      (m.ctl.ownership.claim ctx.record (m.ctl.nextRequest ctx state kind rt ns payload)).1 := by
    have hclaim := Controller.claim_eq
      ({ m.ctl with nextId := m.ctl.nextId + 1,
                    inFlight := m.ctl.inFlight.set m.ctl.nextId
                      ⟨ctx.record, ctx.key, state, m.ctl.nextId, promise⟩ } : Controller τ)
      now ctx.record (m.ctl.nextRequest ctx state kind rt ns payload)
    obtain ⟨qs, a, s, heq⟩ := Controller.foldl_issue_eq_with _ now
      (m.ctl.ownership.claim ctx.record (m.ctl.nextRequest ctx state kind rt ns payload)).2.toList
    rw [heq] at hclaim
    obtain ⟨sent, completed, hflush⟩ := Controller.flush_eq_with
      (({ m.ctl with nextId := m.ctl.nextId + 1,
                     inFlight := m.ctl.inFlight.set m.ctl.nextId
                       ⟨ctx.record, ctx.key, state, m.ctl.nextId, promise⟩ } : Controller τ).claim
        now ctx.record (m.ctl.nextRequest ctx state kind rt ns payload))
    rcases hc with rfl | rfl
    · rw [hclaim]
      exact ⟨rfl, rfl⟩
    · rw [hflush, hclaim]
      exact ⟨rfl, rfl⟩
  have htop : ({ m with ctl := c } : Machine τ).top = m.top := by simp [top, hcur]
  intro k ko' hko'
  rw [htop]
  simp only [howners] at hko'
  rcases Ownership.claim_cases m.ctl.ownership ctx.record
      (m.ctl.nextRequest ctx state kind rt ns payload) with
    ⟨hfree, heq⟩ | ⟨ko, hko, hrec, heq⟩ | ⟨ko, hko, hrec, heq⟩ <;> rw [heq] at hko'
  · -- a free key: the submitting record takes it, with nothing parked
    by_cases hkey : ctx.key = k
    · subst hkey
      simp only [Controller.nextRequest_key, Table.get?_set_self, Option.some.injEq] at hko'
      subst hko'
      rcases hown with hnil | ⟨fr, hfr, hfrec⟩
      · exact ⟨ctx, by rw [top_of_frames_nil hnil, hctx], .fresh (Nat.le_refl _)⟩
      · -- a completion's record owns its key, so its key is not free
        obtain ⟨e, he, howns⟩ := hi.frame_owns fr hfr
        obtain ⟨keyOf, -, hkr, hkc⟩ := hi.keyed
        have hkey : ctx.key = e.key := by
          rw [hkc ctx (mem_contexts.mpr (.inl hctx)), hkr _ e he]
          simp only [hctx, Option.map_some, Option.some.injEq] at hfrec
          rw [hfrec]
        obtain ⟨ko, hko, -⟩ := howns
        rw [← hkey] at hko
        simp [hko] at hfree
    · simp only [Controller.nextRequest_key] at hko'
      rw [Table.get?_set_ne _ _ hkey] at hko'
      exact h k ko' hko'
  · exact h k ko' hko'
  · -- the key is another record's: the request joins the end of its line
    by_cases hkey : ctx.key = k
    · subst hkey
      simp only [Controller.nextRequest_key, Table.get?_set_self, Option.some.injEq] at hko'
      subst hko'
      rcases hown with hnil | ⟨fr, hfr, hfrec⟩
      · have htop : m.top = some ctx := by rw [top_of_frames_nil hnil, hctx]
        obtain ⟨t, ht, hline⟩ := h ctx.key ko hko
        rw [htop, Option.some.injEq] at ht
        subst ht
        exact ⟨_, htop, hline.park hrec _⟩
      · -- a completion's record owns its key, so nothing it submits is parked
        obtain ⟨e, he, howns⟩ := hi.frame_owns fr hfr
        obtain ⟨keyOf, -, hkr, hkc⟩ := hi.keyed
        simp only [hctx, Option.map_some, Option.some.injEq] at hfrec
        have hkey : ctx.key = e.key := by
          rw [hkc ctx (mem_contexts.mpr (.inl hctx)), hkr _ e he, hfrec]
        rw [← hkey, ← hfrec] at howns
        exact absurd (howns.unique ⟨ko, hko, rfl⟩) (Ne.symm hrec)
    · simp only [Controller.nextRequest_key] at hko'
      rw [Table.get?_set_ne _ _ hkey] at hko'
      exact h k ko' hko'

end ParkedOrder

/-- The run lemma: every orderly machine has its parked lines in order. -/
theorem Orderly.parkedOrder {cfg : Config} {m : Machine τ} (h : Orderly cfg m) :
    m.ParkedOrder := by
  induction h with
  | start => exact parkedOrder_start cfg
  | @internal m m' hm hi ih =>
    cases hi with
    | flush =>
      obtain ⟨sent, completed, hf⟩ := Controller.flush_eq_with m.ctl
      exact ih.of_eq (by rw [hf]) (by simp only [top]; rw [hf])
    | execute i batch hb =>
      obtain ⟨sent, mailbox, store, he⟩ := Controller.execute_eq_with m.ctl i
      exact ih.of_eq (by rw [he]) (by simp only [top]; rw [he])
    | receive => exact ih.of_eq rfl rfl
    | begin now comp f previous c hb => exact ih.begin hb
    | finish now fr rest hfr => exact ih.finish hfr now
    | nestedKey key hne => exact ih.of_eq rfl (top_of_frames_ne_nil hne _)
  | setKey key hm ih => exact ih.setKey hm.reachable.inv key
  | submit _ _ _ _ _ _ _ hm hown hs ih => exact ih.submit hm.reachable.inv hown hs
  | shut _ ih => exact ih.of_eq rfl rfl

/-- A parked request's sequence number is its id. -/
theorem Inv.parked_sequence {m : Machine τ} (h : m.Inv []) {x : Nat × Request}
    (hx : x ∈ m.ctl.parked) : x.2.sequence = x.2.id := by
  obtain ⟨f, hf, -, hd⟩ := h.parked_entry x hx
  exact hd.2.2.symm.trans (h.entry _ f hf).2.1

end Machine

open Machine

/-- Along a run in which every submission is made in the processing thread's own record, a
key's parked line holds none of its owner's requests and lists records in order, each
record's requests in submission order. So when the key passes to the record at the front,
everything left parked belongs to later records: the new owner's parked requests are all let
through at once. -/
theorem parked_after_owner_in_order {cfg : Config} {m : Machine τ} (hm : Orderly cfg m)
    {k : Nat} {ko : KeyOwner} (hko : m.ctl.ownership.owners.get? k = some ko) :
    (∀ x ∈ ko.parked, ko.record < x.1) ∧
    ko.parked.Pairwise (fun x y => x.1 ≤ y.1 ∧ x.2.sequence < y.2.sequence) ∧
    ∀ next x tail, ko.parked = (next, x) :: tail →
      ∀ y ∈ ko.parked.dropWhile (·.1 = next), next < y.1 := by
  obtain ⟨t, -, hline⟩ := hm.parkedOrder k ko hko
  have hi := hm.reachable.inv
  have hrecords : ko.parked.Pairwise (fun x y => x.1 ≤ y.1) := List.pairwise_map.mp hline.2.2
  have hids : ko.parked.Pairwise (fun x y => x.2.id < y.2.id) :=
    List.pairwise_map.mp (hi.parked_line k ko hko).1
  have hseq : ∀ x ∈ ko.parked, x.2.sequence = x.2.id := fun x hx =>
    hi.parked_sequence (List.mem_flatMap.mpr ⟨(k, ko), Table.mem_of_get?_eq_some hko, hx⟩)
  refine ⟨fun x hx => (hline.2.1 x hx).1, ?_, fun next x tail hk y hy => ?_⟩
  · refine (hrecords.and hids).imp_of_mem fun {a b} ha hb hab => ⟨hab.1, ?_⟩
    rw [hseq a ha, hseq b hb]
    exact hab.2
  · exact ((hline.pass hk).2.1 y hy).1

/-- Two records on key 1 each submit a read of state "s": the second record's read is parked. -/
def Machine.twoRecords : Machine Unit :=
  let m₁ : Machine Unit :=
    { (start {} : Machine Unit) with ctl := (start {} : Machine Unit).ctl.setCurrentKey 1 }
  let m₂ : Machine Unit :=
    { m₁ with ctl := (m₁.ctl.submit 0 "s" .value .valueGet [] .empty ()).toOption.getD m₁.ctl }
  let m₃ : Machine Unit := { m₂ with ctl := m₂.ctl.setCurrentKey 1 }
  { m₃ with ctl := (m₃.ctl.submit 0 "s" .value .valueGet [] .empty ()).toOption.getD m₃.ctl }

theorem Machine.orderly_twoRecords : Orderly {} Machine.twoRecords :=
  .submit 0 "s" .value .valueGet [] .empty ()
    (.setKey 1 (.submit 0 "s" .value .valueGet [] .empty () (.setKey 1 .start) (.inl rfl) rfl))
    (.inl rfl) rfl

theorem twoRecords_parked_in_order :
    Orderly {} Machine.twoRecords ∧
    ∃ ko, Machine.twoRecords.ctl.ownership.owners.get? 1 = some ko ∧ ko.parked ≠ [] ∧
      (∀ x ∈ ko.parked, ko.record < x.1) ∧
      ko.parked.Pairwise (fun x y => x.1 ≤ y.1 ∧ x.2.sequence < y.2.sequence) ∧
      ∀ next x tail, ko.parked = (next, x) :: tail →
        ∀ y ∈ ko.parked.dropWhile (·.1 = next), next < y.1 := by
  obtain ⟨ko, hko, hne⟩ : ∃ ko, Machine.twoRecords.ctl.ownership.owners.get? 1 = some ko ∧
      ko.parked ≠ [] := by decide +kernel
  exact ⟨Machine.orderly_twoRecords, ko, hko, hne,
    parked_after_owner_in_order Machine.orderly_twoRecords hko⟩

/-- A run in which a continuation starts a record and submits under it. Record 0 reads states
"s" and "t" of key 1, each sent as a batch of its own; record 1 parks a read of "s" behind it.
Only the first batch is executed and collected. Its completion starts record 2 on key 1, whose
read parks behind record 1's; back at the top level, with no completion left to take, record 1
parks a second read behind record 2's. The second batch then completes, and its completion hands
the key to record 1, which takes only its first read. -/
def Machine.gapMoves : List (Move Unit) :=
  [.setKey 1, .submit 0 "s" .value .valueGet [] .empty (), .flush,
    .submit 0 "t" .value .valueGet [] .empty (), .flush, .setKey 1,
    .submit 0 "s" .value .valueGet [] .empty (), .execute 0, .receive, .begin 0,
    .setKey 1, .submit 0 "s" .value .valueGet [] .empty (), .finish 0,
    .submit 0 "s" .value .valueGet [] .empty (), .execute 0, .receive, .begin 0, .finish 0]

/-- Where `gapMoves` leads from a fresh controller. -/
def Machine.gapRun : Machine Unit := ((start {} : Machine Unit).run? gapMoves).getD (start {})

/-- Once a continuation submits under a record it started, the owner of a key can have one of
its own requests parked. -/
theorem owner_request_parked :
    Reachable {} Machine.gapRun ∧
    ∃ ko, Machine.gapRun.ctl.ownership.owners.get? 1 = some ko ∧ ∃ x ∈ ko.parked, x.1 = ko.record :=
  ⟨Reachable.run? .start
    (show (start {} : Machine Unit).run? Machine.gapMoves = some Machine.gapRun from rfl),
    by decide +kernel⟩

end OrderedState
