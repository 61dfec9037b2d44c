import OrderedState.Proofs.Custody

/-!
# Continuations run in the record of their completion

Taking a completion saves the current record context in a frame and makes the completing
request's record and key current; ending it restores what the frame saved. A continuation that
blocks takes further completions inside its own, so the frames form a stack, and the context
comes back right only if the frame a completion ends with is the one it pushed. That is the
argument of this module:

* `Step.frames_cases`: a transition pushes one frame, pops the innermost one, or leaves the
  stack alone;
* `Inside d`: runs inside the continuations of a completion taken with `d` frames on the stack.
  The stack never falls back to `d` frames, so the completion's frame stays where it was
  (`Inside.suffix`), and once the stack is back to its height that frame is the innermost;
* `Keeps`: runs of the processing thread at one height of the stack that start no record at
  that height. It flushes, lets the executor run batches, collects and submits, shuts the
  controller, and takes completions whole: their continuations may do anything, until they
  return. `poll`, `yield_once`, `wait_for`, `wait_for_timeout`, `drain_inflight`, and a
  continuation up to its first `set_current_key`, are such runs, and each ends in the record
  context it started in (`Keeps.context`).

Along every reachable run the record of a completion being processed owns its key
(`Machine.Inv.frame_owns`), so as long as its continuations run in its context, what they
submit is counted against that record and let through at once (`completion_context`).
-/

namespace OrderedState

variable {τ : Type}

namespace Controller

@[simp] theorem flush_ownership (c : Controller τ) : c.flush.ownership = c.ownership := by
  obtain ⟨_, _, h⟩ := flush_eq_with c; rw [h]

/-- Issuing requests in turn leaves key ownership alone. -/
theorem foldl_issue_ownership (c : Controller τ) (now : Nat) (rs : List Request) :
    (rs.foldl (fun c r => c.issue now r) c).ownership = c.ownership := by
  obtain ⟨qs, a, s, h⟩ := foldl_issue_eq_with c now rs
  rw [h]

/-- A submission of a record that owns the current key is let through: the request is in flight
under that record and key, one more request of the record is pending, and nothing is parked. -/
theorem submit_of_owner {c c' : Controller τ} {ctx : RecordContext} (hctx : c.current = some ctx)
    (hown : c.ownership.Owns ctx.key ctx.record) {now : Nat} {state : String}
    {kind : StateKind} {rt : RequestType} {ns : Bytes} {payload : Payload} {promise : τ}
    (hs : c.submit now state kind rt ns payload promise = .ok c') :
    c'.inFlight.get? c.nextId = some ⟨ctx.record, ctx.key, state, c.nextId, promise⟩ ∧
    ((c'.ownership.records.get? ctx.record).map (·.pending)).getD 0 =
      ((c.ownership.records.get? ctx.record).map (·.pending)).getD 0 + 1 ∧
    c'.parked = c.parked := by
  obtain ⟨ctx', hctx', -, -, -, hfl, -, -⟩ := submit_fields (submit_open hs) hs
  rw [hctx] at hctx'
  cases hctx'
  obtain ⟨ko, hko, hrec⟩ := hown
  -- the owner's request is counted and let through, and key ownership keeps its owners
  have hclaim : c.ownership.claim ctx.record (c.nextRequest ctx state kind rt ns payload) =
      ({ c.ownership with records := c.ownership.countOne ctx.record ctx.key }, some _) :=
    Ownership.claim_of_owner (by simpa using hko) hrec
  obtain ⟨ctx'', hctx'', hc⟩ := submit_eq_ok hs
  rw [hctx] at hctx''
  cases hctx''
  have hown' : ∀ c₁ : Controller τ, c₁.ownership = c.ownership →
      (c₁.claim now ctx.record (c.nextRequest ctx state kind rt ns payload)).ownership =
        { c.ownership with records := c.ownership.countOne ctx.record ctx.key } := by
    intro c₁ h₁
    rw [claim_eq, foldl_issue_ownership, h₁, hclaim]
  have hfinal : c'.ownership = { c.ownership with
      records := c.ownership.countOne ctx.record ctx.key } := by
    rcases hc with rfl | rfl
    · exact hown' _ rfl
    · rw [flush_ownership]
      exact hown' _ rfl
  refine ⟨by rw [hfl]; exact Table.get?_set_self .., ?_, ?_⟩
  · rw [hfinal, Ownership.countOne_get?_self]
    cases c.ownership.records.get? ctx.record <;> rfl
  · simp only [parked, hfinal]

end Controller

namespace Machine

variable {m m' : Machine τ}

/-! ## The stack of completions being processed -/

/-- A transition pushes one frame, pops the innermost one, or leaves the stack alone. -/
theorem Step.frames_cases (hs : Step m m') :
    m'.frames = m.frames ∨ (∃ fr, m'.frames = fr :: m.frames) ∨ ∃ fr, m.frames = fr :: m'.frames := by
  cases hs with
  | internal hi =>
    cases hi with
    | begin => exact .inr (.inl ⟨_, rfl⟩)
    | finish now fr rest hfr => exact .inr (.inr ⟨fr, hfr⟩)
    | flush | execute | receive | nestedKey => exact .inl rfl
  | setKey | submit | shut => exact .inl rfl

/-- Runs inside the continuations of a completion taken with `d` frames on the stack: every
machine after the first has more than `d`. -/
inductive Inside (d : Nat) : Machine τ → Machine τ → Prop where
  | refl (m : Machine τ) : Inside d m m
  | tail {m₁ m₂ m₃ : Machine τ} : Inside d m₁ m₂ → Step m₂ m₃ → d < m₃.frames.length →
      Inside d m₁ m₃

theorem Inside.reachable {cfg : Config} {d : Nat} {m₁ m₂ : Machine τ} (h : Inside d m₁ m₂)
    (hm : Reachable cfg m₁) : Reachable cfg m₂ := by
  induction h with
  | refl => exact hm
  | tail _ hs _ ih => exact .step ih hs

/-- A run inside the continuations of a completion keeps its frame and those below it. -/
theorem Inside.suffix {d : Nat} {m₁ m₂ : Machine τ} (h : Inside d m₁ m₂)
    (hd : m₁.frames.length = d + 1) : m₁.frames <:+ m₂.frames := by
  induction h with
  | refl => exact List.suffix_refl _
  | tail _ hs hlen ih =>
    rcases Step.frames_cases hs with heq | ⟨fr, hpush⟩ | ⟨fr, hpop⟩
    · rw [heq]
      exact ih
    · rw [hpush]
      exact ih.trans (List.suffix_cons fr _)
    · -- popping stops above the completion's frame
      rw [hpop] at ih
      rcases List.suffix_cons_iff.mp ih with heq | hsuf
      · have := congrArg List.length heq
        simp only [List.length_cons] at this
        omega
      · exact hsuf

/-- The moves of the processing thread at its own height that touch no record context: flushing,
running a batch, collecting, submitting and shutting. -/
def Move.quiet : Move τ → Bool
  | .flush | .execute _ | .receive | .submit .. | .shut => true
  | .begin _ | .finish _ | .setKey _ => false

/-- A quiet move keeps the record context and the stack. -/
theorem Move.quiet_context {mv : Move τ} (h : m.move? mv = some m') (hq : mv.quiet = true) :
    m'.ctl.current = m.ctl.current ∧ m'.frames = m.frames := by
  cases mv with
  | flush => cases h; exact ⟨Controller.flush_current _, rfl⟩
  | execute i =>
    obtain ⟨batch, -, rfl⟩ := Option.map_eq_some_iff.mp h
    obtain ⟨sent, mailbox, store, he⟩ := m.ctl.execute_eq_with i
    exact ⟨by simp only [he], rfl⟩
  | receive => cases h; exact ⟨rfl, rfl⟩
  | submit now state kind rt ns payload promise =>
    obtain ⟨c, hc, rfl⟩ := Option.map_eq_some_iff.mp h
    have hok : m.ctl.submit now state kind rt ns payload promise = .ok c := by
      revert hc
      cases m.ctl.submit now state kind rt ns payload promise <;> simp [Except.toOption]
    obtain ⟨-, -, hcur, -⟩ := Controller.submit_fields (Controller.submit_open hok) hok
    exact ⟨hcur, rfl⟩
  | shut => cases h; exact ⟨rfl, rfl⟩
  | begin | finish | setKey => cases hq

/-- Runs of the processing thread at the height of the stack it starts at, starting no record
there: quiet moves, and completions taken whole. A completion taken pushes its frame; its
continuations then run inside it, doing anything, until the stack is back at its height and the
completion ends. -/
inductive Keeps : Machine τ → Machine τ → Prop where
  | refl (m : Machine τ) : Keeps m m
  | quiet {m₁ m₂ m₃ : Machine τ} {mv : Move τ} : Keeps m₁ m₂ → m₂.move? mv = some m₃ →
      mv.quiet = true → Keeps m₁ m₃
  | take {m₁ m₂ m₃ m₄ m₅ : Machine τ} {now now' : Nat} : Keeps m₁ m₂ →
      m₂.move? (.begin now) = some m₃ → Inside m₂.frames.length m₃ m₄ →
      m₄.move? (.finish now') = some m₅ → m₅.frames.length = m₂.frames.length → Keeps m₁ m₅

theorem Keeps.reachable {cfg : Config} {m₁ m₂ : Machine τ} (h : Keeps m₁ m₂)
    (hm : Reachable cfg m₁) : Reachable cfg m₂ := by
  induction h with
  | refl => exact hm
  | quiet _ hmv _ ih => exact .step ih (step_of_move? hmv)
  | take _ hb hin hf _ ih =>
    exact .step (hin.reachable (.step ih (step_of_move? hb))) (step_of_move? hf)

/-- Taking a completion pushes a frame that saves the current record context. -/
theorem begin_pushes {now : Nat} (h : m.move? (.begin now) = some m') :
    ∃ record, m'.frames = ⟨record, m.ctl.current⟩ :: m.frames := by
  obtain ⟨⟨comp, f, previous, c⟩, hb, rfl⟩ := Option.map_eq_some_iff.mp h
  obtain ⟨-, -, -, -, -, hprev, -⟩ := Controller.beginCompletion_eq_some hb
  exact ⟨f.record, by rw [hprev]⟩

/-- Ending a completion pops its frame and makes the context it saved current. -/
theorem finish_pops {now : Nat} (h : m.move? (.finish now) = some m') :
    ∃ fr, m.frames = fr :: m'.frames ∧ m'.ctl.current = fr.previous := by
  cases hfr : m.frames with
  | nil => simp [move?, hfr] at h
  | cons fr rest =>
    simp only [move?, hfr, Option.some.injEq] at h
    subst h
    obtain ⟨o, qs, a, s, he⟩ := m.ctl.endCompletion_eq_with now fr.record fr.previous
    exact ⟨fr, rfl, by simp only [he]⟩

/-- A run that starts no record at its own height ends in the record context, and with the
stack, it started with: every completion it takes restores the context its frame saved, and
that frame is still the innermost when the completion ends. -/
theorem Keeps.context {m₁ m₂ : Machine τ} (h : Keeps m₁ m₂) :
    m₂.ctl.current = m₁.ctl.current ∧ m₂.frames = m₁.frames := by
  induction h with
  | refl => exact ⟨rfl, rfl⟩
  | quiet _ hmv hq ih =>
    obtain ⟨hcur, hfr⟩ := Move.quiet_context hmv hq
    exact ⟨hcur.trans ih.1, hfr.trans ih.2⟩
  | take _ hb hin hf hlen ih =>
    obtain ⟨record, hpush⟩ := begin_pushes hb
    obtain ⟨fr, hpop, hcur⟩ := finish_pops hf
    -- the continuations leave the completion's frame in place, and end at its height
    have hsuf := hin.suffix (by rw [hpush, List.length_cons])
    rw [hpush, hpop] at hsuf
    have hsame := hsuf.eq_of_length (by rw [List.length_cons, List.length_cons, hlen])
    obtain ⟨rfl, hrest⟩ := List.cons.inj hsame
    exact ⟨hcur.trans ih.1, hrest.symm.trans ih.2⟩

end Machine

open Machine

/-- Continuations run in the completed request's record and key, and taking completions leaves
the caller's context as it was. A run of the processing thread that starts no record at its own
height, as `poll`, `yield_once`, `wait_for`, `wait_for_timeout` and `drain_inflight` are, ends
with the record context and the stack it started with, whatever the continuations of the
completions it takes do. And along a reachable run, once the completion of a request is taken,
its continuations run, up to their first `set_current_key`, in the request's record and key;
that record owns the key, so each request they submit is in flight under that record and key,
counts as one more pending request of the record, and is not parked. -/
theorem completion_context :
    (∀ m₁ m₂ : Machine τ, Keeps m₁ m₂ →
      m₂.ctl.current = m₁.ctl.current ∧ m₂.frames = m₁.frames) ∧
    ∀ (cfg : Config) (m m₂ : Machine τ) (now : Nat) (comp : Completion) (f : InFlight τ)
      (previous : Option RecordContext) (c : Controller τ),
      Reachable cfg m → m.ctl.beginCompletion now = some (comp, f, previous, c) →
      Keeps { m with ctl := c, frames := ⟨f.record, previous⟩ :: m.frames,
                     taken := m.taken ++ [comp] } m₂ →
      m₂.ctl.current = some ⟨f.record, f.key⟩ ∧ m₂.ctl.ownership.Owns f.key f.record ∧
      ∀ now' state kind rt ns payload promise (c' : Controller τ),
        m₂.ctl.submit now' state kind rt ns payload promise = .ok c' →
        c'.inFlight.get? m₂.ctl.nextId = some ⟨f.record, f.key, state, m₂.ctl.nextId, promise⟩ ∧
        ((c'.ownership.records.get? f.record).map (·.pending)).getD 0 =
          ((m₂.ctl.ownership.records.get? f.record).map (·.pending)).getD 0 + 1 ∧
        c'.parked = m₂.ctl.parked := by
  refine ⟨fun m₁ m₂ h => h.context, ?_⟩
  intro cfg m m₂ now comp f previous c hm hb hk
  have hm₂ := hk.reachable (.step hm (.internal (.begin m now comp f previous c hb)))
  obtain ⟨hcur, hfr⟩ := hk.context
  -- taking the completion made the request's record and key current
  have hcur₂ : m₂.ctl.current = some ⟨f.record, f.key⟩ := by
    obtain ⟨pre, rest, -, -, -, -, hc⟩ := Controller.beginCompletion_eq_some hb
    rw [hcur, hc]
  -- the request's record still owns its key: its frame is still on the stack
  have hown : m₂.ctl.ownership.Owns f.key f.record := by
    have h := hm₂.inv
    obtain ⟨e, he, howns⟩ :=
      h.frame_owns ⟨f.record, previous⟩ (by rw [hfr]; exact List.mem_cons_self ..)
    obtain ⟨keyOf, -, hkr, hkc⟩ := h.keyed
    have hkey : f.key = keyOf f.record :=
      hkc ⟨f.record, f.key⟩ (mem_contexts.mpr (.inl hcur₂))
    rw [hkey, ← hkr _ e he]
    exact howns
  exact ⟨hcur₂, hown, fun now' state kind rt ns payload promise c' hs =>
    Controller.submit_of_owner hcur₂ hown hs⟩

/-- The run of `oneRead` after its batch has run and its completion is collected. -/
def Machine.readCollected : Machine Unit :=
  (Machine.oneRead.run? [.flush, .execute 0, .receive]).getD Machine.oneRead

theorem Machine.reachable_readCollected : Reachable {} Machine.readCollected :=
  Reachable.run? Machine.reachable_oneRead
    (show Machine.oneRead.run? [.flush, .execute 0, .receive] = some Machine.readCollected from rfl)

theorem readCollected_completion_context :
    Reachable {} Machine.readCollected ∧
    ∃ (comp : Completion) (f : InFlight Unit) (previous : Option RecordContext)
      (c : Controller Unit),
      Machine.readCollected.ctl.beginCompletion 0 = some (comp, f, previous, c) ∧
      f.record = 0 ∧ f.key = 5 ∧ c.current = some ⟨f.record, f.key⟩ ∧
      c.ownership.Owns f.key f.record := by
  obtain ⟨comp, f, previous, c, hb⟩ : ∃ comp f previous c,
      Machine.readCollected.ctl.beginCompletion 0 = some (comp, f, previous, c) :=
    ⟨_, _, _, _, rfl⟩
  obtain ⟨hcur, hown, -⟩ := completion_context.2 {} _ _ 0 comp f previous c
    Machine.reachable_readCollected hb (Keeps.refl _)
  have hrk :
      (Machine.readCollected.ctl.beginCompletion 0).map (fun x => (x.2.1.record, x.2.1.key)) =
      some (0, 5) := rfl
  rw [hb, Option.map_some, Option.some.injEq, Prod.mk.injEq] at hrk
  exact ⟨Machine.reachable_readCollected, comp, f, previous, c, hb, hrk.1, hrk.2, hcur, hown⟩

end OrderedState
