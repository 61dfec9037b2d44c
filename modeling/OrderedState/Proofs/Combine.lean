import OrderedState.Proofs.Delivery

/-!
# Combining futures

`combine fuel slots` makes a future that waits for every future of `slots` and collects their
results by position. Each position reports once: at once when its input is already done,
otherwise when the input is settled. A report writes the result at its position and counts one
result fewer missing; the report that leaves none missing settles the combination's future
with `Gather.outcome` of the results.

`World.Collecting` says how a combination's record and its future stand for a list of results:
the count of missing results is the number of positions without one, and the future waits, with
nothing registered on it, until that count is zero. One report keeps it (`Collecting.report`).
`World.Registering` follows `combine` while it registers the combination on its inputs, and
`World.Combining` describes the world at rest afterwards, while the inputs `todo` are pending:
a position holds a result exactly when its input is done, and a pending input waits with
exactly the combination's continuations for its positions. Settling an input keeps it
(`Combining.settle`).

The main theorem, `combine_quiet_resolves`, follows a combination from its creation through
the settling of its pending inputs, on which nothing else waits, in any order: its future
waits until the last input is settled, and is then done with the values in list order, or with
the error of the first input in list order that failed.
-/

namespace OrderedState

/-! ## The combined outcome -/

/-- With a result at every position, the combination's outcome runs over the results in
order. -/
theorem Gather.outcome_map_some (xs : List Outcome) :
    Gather.outcome (xs.map some) = .array <$> xs.mapM id := by
  simp [Gather.outcome, List.filterMap_map]

theorem mapM_ok (vs : List Json) : ((vs.map Except.ok : List Outcome).mapM id) = .ok vs := by
  induction vs with
  | nil => rfl
  | cons v vs ih => simp only [List.map_cons, List.mapM_cons, ih]; rfl

theorem mapM_first_error {pre : List Outcome} (hpre : ∀ x ∈ pre, ∃ v, x = .ok v)
    (e : StateError) (post : List Outcome) : (pre ++ .error e :: post).mapM id = .error e := by
  induction pre with
  | nil => rfl
  | cons x pre ih =>
    obtain ⟨v, rfl⟩ := hpre x List.mem_cons_self
    simp only [List.cons_append, List.mapM_cons, ih fun y hy => hpre y (List.mem_cons_of_mem _ hy)]
    rfl

/-- With a result at every position, the combination gives the values in list order when every
result is a value. -/
theorem Gather.outcome_ok {xs : List Outcome} {vs : List Json} (h : xs = vs.map .ok) :
    Gather.outcome (xs.map some) = .ok (.array vs) := by
  rw [Gather.outcome_map_some, h, mapM_ok]
  rfl

/-- With a result at every position, the combination fails with the first error in list
order. -/
theorem Gather.outcome_error {xs pre post : List Outcome} {e : StateError}
    (h : xs = pre ++ .error e :: post) (hpre : ∀ x ∈ pre, ∃ v, x = .ok v) :
    Gather.outcome (xs.map some) = .error e := by
  rw [Gather.outcome_map_some, h, mapM_first_error hpre]
  rfl

/-! ## Positions -/

/-- The positions of the future `s` among `slots`, in order. -/
def positions (slots : List Nat) (s : Nat) : List Nat :=
  (List.range slots.length).filter fun i => slots[i]? == some s

theorem mem_positions {slots : List Nat} {s i : Nat} :
    i ∈ positions slots s ↔ slots[i]? = some s := by
  simp only [positions, List.mem_filter, List.mem_range, beq_iff_eq, and_iff_right_iff_imp]
  intro h
  exact (List.getElem?_eq_some_iff.mp h).1

theorem nodup_positions (slots : List Nat) (s : Nat) : (positions slots s).Nodup :=
  List.nodup_range.filter _

theorem positions_nil (s : Nat) : positions [] s = [] := rfl

/-- Registering one more input adds its position, if it is `s`, at the end. -/
theorem positions_append_singleton (pre : List Nat) (a s : Nat) :
    positions (pre ++ [a]) s = positions pre s ++ if a = s then [pre.length] else [] := by
  unfold positions
  rw [List.length_append, List.length_singleton, List.range_succ, List.filter_append]
  congr 1
  · refine List.filter_congr fun i hi => ?_
    rw [List.getElem?_append_left (List.mem_range.mp hi)]
  · by_cases ha : a = s <;> simp [ha]

namespace World

variable {u : World} {g t : Nat} {res : List (Option Outcome)}

theorem gatherResult_of_record {gr : Gather} {j : Nat} {r : Outcome}
    (h : u.gathers[g]? = some gr) :
    u.gatherResult g j r =
      (if gr.remaining - 1 = 0 then some (gr.target, Gather.outcome (gr.results.set j (some r)))
        else none,
        { u with gathers :=
          u.gathers.setIfInBounds g ⟨gr.results.set j (some r), gr.remaining - 1, gr.target⟩ }) := by
  unfold gatherResult
  rw [h]
  dsimp only
  split <;> rfl

/-! ## One combination's record -/

/-- Combination `g` of world `u` has collected `res` for the future `t`: its count of missing
results is the number of positions without one, and `t` waits, with nothing registered on it,
while a result is missing, and is done with the combined outcome once none is. -/
structure Collecting (u : World) (g t : Nat) (res : List (Option Outcome)) : Prop where
  record : u.gathers[g]? = some ⟨res, res.countP (·.isNone), t⟩
  target : u.slot? t =
    some (if res.countP (·.isNone) = 0 then .done (Gather.outcome res) else .pending [])

/-- `u'` differs from `u`, among the futures, at most in `t`, and has resolved no future twice
that `u` had not. -/
structure Aside (t : Nat) (u u' : World) : Prop where
  slots : ∀ s, s ≠ t → u'.slot? s = u.slot? s
  twice : u'.resolvedTwice = u.resolvedTwice

theorem Aside.refl (t : Nat) (u : World) : Aside t u u := ⟨fun _ _ => rfl, rfl⟩

theorem Aside.trans {u' u'' : World} (h : Aside t u u') (h' : Aside t u' u'') : Aside t u u'' :=
  ⟨fun s hs => (h'.slots s hs).trans (h.slots s hs), h'.twice.trans h.twice⟩

/-- Only the combinations and the future `t` matter to a collecting world. -/
theorem Collecting.of_frame {u' : World} (h : u.Collecting g t res) (hg : u'.gathers = u.gathers)
    (ht : u'.slot? t = u.slot? t) : u'.Collecting g t res :=
  ⟨hg ▸ h.record, ht ▸ h.target⟩

/-- The report of a position `j` that had no result yet records the result there; the report
that leaves no result missing settles the combination's future. -/
theorem Collecting.report (hc : u.Collecting g t res) {j : Nat} (hj : res[j]? = some none)
    (r : Outcome) (m : Nat) :
    ((resume (m + 2) (.gather g j) r).run u).2.Collecting g t (res.set j (some r)) ∧
      Aside t u ((resume (m + 2) (.gather g j) r).run u).2 := by
  -- the position was missing, so one result fewer is missing after the report
  obtain ⟨hlt, hnone⟩ := List.getElem?_eq_some_iff.mp hj
  have hpos : 0 < res.countP (·.isNone) :=
    List.countP_pos_iff.mpr ⟨none, List.mem_of_getElem? hj, rfl⟩
  have hcount : (res.set j (some r)).countP (·.isNone) = res.countP (·.isNone) - 1 := by
    rw [List.countP_set hlt, hnone]
    simp
  have hg : g < u.gathers.size := (Array.getElem?_eq_some_iff.mp hc.record).1
  obtain ⟨u₁, hu₁⟩ : ∃ u₁ : World, u₁ = { u with gathers := (u.gathers.setIfInBounds g
      ⟨res.set j (some r), res.countP (·.isNone) - 1, t⟩) } := ⟨_, rfl⟩
  have hrec : u₁.gathers[g]? =
      some ⟨res.set j (some r), (res.set j (some r)).countP (·.isNone), t⟩ := by
    simp [hu₁, hcount, hg]
  have hwait : u₁.slot? t = some (.pending []) := by
    have h := hc.target
    rw [if_neg (Nat.pos_iff_ne_zero.mp hpos)] at h
    rw [hu₁]
    exact h
  rw [resume, Run.run_bind, Run.run_modifyGet, gatherResult_of_record hc.record]
  dsimp only
  rw [← hu₁]
  by_cases hlast : res.countP (·.isNone) - 1 = 0
  · -- the last result settles the combination's future, on which nothing waits
    rw [if_pos hlast]
    dsimp only
    rw [settle_pending hwait, Run.run_forM_nil]
    refine ⟨⟨hrec, ?_⟩, ⟨fun s hs => ?_, by rw [hu₁]; rfl⟩⟩
    · rw [hcount, if_pos hlast]
      exact slot?_setSlot_self hwait _
    · rw [slot?_setSlot_ne _ (Ne.symm hs), hu₁]
      rfl
  · rw [if_neg hlast]
    refine ⟨⟨hrec, ?_⟩, ⟨fun _ _ => by rw [hu₁]; rfl, by rw [hu₁]; rfl⟩⟩
    rw [hcount, if_neg hlast]
    exact hwait

/-- The reports of distinct positions `js` without a result, all with `r`, record `r` at each
of them. -/
theorem Collecting.reports (r : Outcome) (m : Nat) :
    ∀ {u : World} {res : List (Option Outcome)} (js : List Nat), u.Collecting g t res →
      js.Nodup → (∀ j ∈ js, res[j]? = some none) →
      ∃ res', (((js.map (Cont.gather g)).forM fun k => resume (m + 2) k r).run u).2.Collecting
          g t res' ∧
        (∀ i, res'[i]? = if i ∈ js then some (some r) else res[i]?) ∧
        Aside t u (((js.map (Cont.gather g)).forM fun k => resume (m + 2) k r).run u).2
  | u, res, [], hc, _, _ => ⟨res, hc, fun i => by simp, Aside.refl t u⟩
  | u, res, j :: js, hc, hnd, hnone => by
    obtain ⟨hj, hnd⟩ := List.nodup_cons.mp hnd
    have hjres := hnone j List.mem_cons_self
    obtain ⟨hc₁, ha₁⟩ := hc.report hjres r m
    -- the other positions are still without a result
    have hnone₁ : ∀ j' ∈ js, (res.set j (some r))[j']? = some none := fun j' hj' => by
      rw [List.getElem?_set_ne (by rintro rfl; exact hj hj')]
      exact hnone j' (List.mem_cons_of_mem _ hj')
    obtain ⟨res', hc', hres', ha'⟩ := Collecting.reports r m js hc₁ hnd hnone₁
    refine ⟨res', hc', fun i => ?_, ha₁.trans ha'⟩
    rw [hres' i]
    by_cases hij : i = j
    · subst hij
      rw [if_neg hj, if_pos List.mem_cons_self,
        List.getElem?_set_self (List.getElem?_eq_some_iff.mp hjres).1]
    · rw [List.getElem?_set_ne (Ne.symm hij)]
      simp [hij]

/-! ## Registering a combination on its inputs -/

variable {pre rest slots todo : List Nat} {final : Nat → Outcome}

/-- The result a position holds once its input `s` is done, while the inputs `todo` are still
pending. -/
def expected (final : Nat → Outcome) (todo : List Nat) (s : Nat) : Option Outcome :=
  if s ∈ todo then none else some (final s)

/-- Registering a pending input leaves its position without a result. -/
theorem results_register_pending {a : Nat} (ha : a ∈ todo) :
    pre.map (expected final todo) ++ (a :: rest).map (fun _ => none) =
      (pre ++ [a]).map (expected final todo) ++ rest.map fun _ => none := by
  simp [expected, ha]

/-- The report of a done input fills its position with its final result. -/
theorem results_register_done {a : Nat} (ha : a ∉ todo) :
    (pre.map (expected final todo) ++ (a :: rest).map fun _ => none).set pre.length
        (some (final a)) =
      (pre ++ [a]).map (expected final todo) ++ rest.map fun _ => none := by
  rw [List.set_append]
  simp [expected, ha]

/-- Once no input is pending, every position holds its input's final result. -/
theorem expected_nil (final : Nat → Outcome) (slots : List Nat) :
    slots.map (expected final []) = (slots.map final).map some := by
  simp [expected, Function.comp_def]

/-- Settling the pending input `s` fills exactly its positions with its final result. -/
theorem results_settle {s : Nat} (hs : s ∉ todo) (i : Nat) :
    (if i ∈ positions slots s then some (some (final s))
      else (slots.map (expected final (s :: todo)))[i]?) =
      (slots.map (expected final todo))[i]? := by
  rw [List.getElem?_map, List.getElem?_map]
  cases hi : slots[i]? with
  | none => simp [mem_positions, hi]
  | some x =>
    by_cases hx : x = s
    · subst hx
      simp [mem_positions, hi, expected, hs]
    · simp [mem_positions, hi, hx, expected]

/-- Combination `g` for the future `t` is being registered on `pre ++ rest`, with the inputs
`pre` done: the positions of `pre` hold their inputs' results, those of `rest` none yet, the
inputs `todo` wait with the continuations they had, `ks₀`, followed by the combination's
continuations for their positions in `pre`, and every other input is done with its final
result. -/
structure Registering (u : World) (g t : Nat) (pre rest : List Nat) (final : Nat → Outcome)
    (todo : List Nat) (ks₀ : Nat → List Cont) : Prop where
  collecting : u.Collecting g t (pre.map (expected final todo) ++ rest.map fun _ => none)
  waiting : ∀ s ∈ todo, u.slot? s = some (.pending (ks₀ s ++ (positions pre s).map (.gather g)))
  done : ∀ s ∈ pre ++ rest, s ∉ todo → u.slot? s = some (.done (final s))
  inputs : ∀ s ∈ todo, s ∈ pre ++ rest
  apart : t ∉ pre ++ rest

theorem Registering.ne_target {s : Nat} {ks₀ : Nat → List Cont}
    (h : u.Registering g t pre rest final todo ks₀)
    (hs : s ∈ pre ++ rest) : s ≠ t :=
  fun hst => h.apart (hst ▸ hs)

/-- A new combination of the inputs `slots`, of which `todo` are pending, each `s` with the
continuations `ks₀ s`, and the others done with their final results, is ready to be
registered. -/
theorem Registering.start {w : World} {ks₀ : Nat → List Cont} (hne : slots ≠ [])
    (hin : ∀ s ∈ slots, w.slot? s = some (.done (final s)) ∨ s ∈ todo)
    (hpend : ∀ s ∈ todo, s ∈ slots ∧ w.slot? s = some (.pending (ks₀ s))) :
    ({ w with slots := w.slots.push (.pending []), gathers := (w.gathers.push
        ⟨slots.map fun _ => none, slots.length, w.slots.size⟩) } : World).Registering
      w.gathers.size w.slots.size [] slots final todo ks₀ := by
  -- every input is a future of `w`, so the new future is none of them
  have hlt : ∀ s ∈ slots, s < w.slots.size := fun s hs => by
    obtain ⟨sl, hsl⟩ : ∃ sl, w.slot? s = some sl := by
      rcases hin s hs with h | h
      · exact ⟨_, h⟩
      · exact ⟨_, (hpend s h).2⟩
    exact (Array.getElem?_eq_some_iff.mp hsl).1
  have hlen : slots.length ≠ 0 := fun h => hne (List.eq_nil_of_length_eq_zero h)
  refine ⟨⟨?_, ?_⟩, fun s hs => ?_, fun s hs hst => ?_, fun s hs => by simpa using (hpend s hs).1,
    fun ht => Nat.lt_irrefl _ (hlt _ (by simpa using ht))⟩
  · simp [List.countP_replicate]
  · simp [slot?, List.countP_replicate, hlen]
  · rw [slot?_push rfl (hlt s (hpend s hs).1), (hpend s hs).2, positions_nil, List.map_nil,
      List.append_nil]
  · rw [List.nil_append] at hs
    rw [slot?_push rfl (hlt s hs)]
    exact (hin s hs).resolve_right hst

/-- Registering the combination on its next input: on a pending input the continuation joins
the end of its list, on a done one it reports at once. -/
theorem Registering.attach {a : Nat} {ks₀ : Nat → List Cont}
    (h : u.Registering g t pre (a :: rest) final todo ks₀) (n : Nat) :
    ((attach (n + 3) a (.gather g pre.length)).run u).2.Registering g t (pre ++ [a]) rest final
        todo ks₀ ∧
      ((attach (n + 3) a (.gather g pre.length)).run u).2.resolvedTwice = u.resolvedTwice := by
  have hmem : ∀ s, s ∈ pre ++ [a] ++ rest ↔ s ∈ pre ++ a :: rest := fun s => by simp
  have hat : a ≠ t := h.ne_target (by simp)
  by_cases ha : a ∈ todo
  · -- a pending input: the continuation joins its list
    rw [attach_pending (h.waiting a ha)]
    refine ⟨⟨?_, fun s hs => ?_, fun s hs hst => ?_, fun s hs => (hmem s).mpr (h.inputs s hs),
      fun ht => h.apart ((hmem t).mp ht)⟩, rfl⟩
    · rw [← results_register_pending ha]
      exact h.collecting.of_frame rfl (slot?_setSlot_ne _ hat)
    · by_cases hsa : s = a
      · subst hsa
        rw [slot?_setSlot_self (h.waiting s hs), positions_append_singleton]
        simp
      · rw [slot?_setSlot_ne _ (Ne.symm hsa), positions_append_singleton, if_neg (Ne.symm hsa),
          List.append_nil]
        exact h.waiting s hs
    · have hsa : a ≠ s := fun hsa => hst (hsa ▸ ha)
      rw [slot?_setSlot_ne _ hsa]
      exact h.done s ((hmem s).mp hs) hst
  · -- a done input: its report comes at once
    have hdone := h.done a (by simp) ha
    rw [attach_done hdone]
    have hj : (pre.map (expected final todo) ++ (a :: rest).map fun _ => none)[pre.length]? =
        some none := by
      rw [List.getElem?_append_right (by simp)]
      simp
    obtain ⟨hc, hside⟩ := h.collecting.report hj (final a) n
    refine ⟨⟨?_, fun s hs => ?_, fun s hs hst => ?_, fun s hs => (hmem s).mpr (h.inputs s hs),
      fun ht => h.apart ((hmem t).mp ht)⟩, hside.twice⟩
    · rw [← results_register_done ha]
      exact hc
    · have hsa : a ≠ s := fun hsa => ha (hsa ▸ hs)
      rw [hside.slots s (h.ne_target (h.inputs s hs)), positions_append_singleton, if_neg hsa,
        List.append_nil]
      exact h.waiting s hs
    · rw [hside.slots s (h.ne_target ((hmem s).mp hs))]
      exact h.done s ((hmem s).mp hs) hst

/-- Registering the combination on the rest of its inputs registers it on all of them. -/
theorem Registering.attachAll {ks₀ : Nat → List Cont} (n : Nat) :
    ∀ {u : World} {pre : List Nat} (rest : List Nat),
      u.Registering g t pre rest final todo ks₀ →
      (((rest.zipIdx pre.length).forM fun x =>
          OrderedState.attach (n + 3) x.1 (.gather g x.2)).run u).2.Registering
          g t (pre ++ rest) [] final todo ks₀ ∧
        (((rest.zipIdx pre.length).forM fun x =>
          OrderedState.attach (n + 3) x.1 (.gather g x.2)).run u).2.resolvedTwice =
          u.resolvedTwice
  | u, pre, [], h => by
    rw [List.append_nil]
    exact ⟨h, rfl⟩
  | u, pre, a :: rest, h => by
    rw [List.zipIdx_cons, Run.run_forM_cons]
    obtain ⟨h₁, ha₁⟩ := h.attach n
    have hlen : pre.length + 1 = (pre ++ [a]).length := by simp
    rw [hlen]
    obtain ⟨h', ha'⟩ := Registering.attachAll n rest h₁
    rw [List.append_assoc, List.singleton_append] at h'
    exact ⟨h', ha'.trans ha₁⟩

/-! ## A combination at rest -/

/-- Combination `g` of `slots`, for the future `t`, at rest while the inputs `todo` are still
pending: each position holds its input's result once that is done, a pending input waits with
exactly the combination's continuations for its positions, and every other input is done with
its final result. -/
structure Combining (u : World) (g t : Nat) (slots : List Nat) (final : Nat → Outcome)
    (todo : List Nat) : Prop where
  collecting : u.Collecting g t (slots.map (expected final todo))
  waiting : ∀ s ∈ todo, u.slot? s = some (.pending ((positions slots s).map (.gather g)))
  done : ∀ s ∈ slots, s ∉ todo → u.slot? s = some (.done (final s))
  inputs : ∀ s ∈ todo, s ∈ slots
  apart : t ∉ slots

theorem Combining.ne_target {s : Nat} (h : u.Combining g t slots final todo) (hs : s ∈ slots) :
    s ≠ t :=
  fun hst => h.apart (hst ▸ hs)

theorem Registering.combining (h : u.Registering g t slots [] final todo fun _ => []) :
    u.Combining g t slots final todo := by
  obtain ⟨hc, hw, hd, hi, ha⟩ := h
  simp only [List.map_nil, List.append_nil, List.nil_append] at hc hw hd hi ha
  exact ⟨hc, hw, hd, hi, ha⟩

/-- While an input is pending, the combination's future waits. -/
theorem Combining.pending (h : u.Combining g t slots final todo) (hne : todo ≠ []) :
    u.slot? t = some (.pending []) := by
  obtain ⟨s, hs⟩ := List.exists_mem_of_ne_nil todo hne
  have hpos : 0 < (slots.map (expected final todo)).countP (·.isNone) :=
    List.countP_pos_iff.mpr ⟨none, List.mem_map.mpr ⟨s, h.inputs s hs, by simp [expected, hs]⟩,
      rfl⟩
  rw [h.collecting.target, if_neg (Nat.pos_iff_ne_zero.mp hpos)]

/-- Once no input is pending, the combination's future is done with the final results in list
order. -/
theorem Combining.finished (h : u.Combining g t slots final []) :
    u.slot? t = some (.done (Gather.outcome ((slots.map final).map some))) := by
  have hzero : ((slots.map final).map some).countP (·.isNone) = 0 := by
    simp [List.countP_map, Function.comp_def]
  rw [h.collecting.target, expected_nil, if_pos hzero]

/-- Settling a pending input with its final result runs the combination's continuations for its
positions, which record the result there. -/
theorem Combining.settle {s : Nat} (h : u.Combining g t slots final (s :: todo)) (hs : s ∉ todo)
    (n : Nat) :
    ((settle (n + 3) s (final s)).run u).2.Combining g t slots final todo ∧
      ((settle (n + 3) s (final s)).run u).2.resolvedTwice = u.resolvedTwice := by
  have hwait := h.waiting s List.mem_cons_self
  have hst : s ≠ t := h.ne_target (h.inputs s List.mem_cons_self)
  rw [settle_pending hwait]
  -- the input is done first; its continuations then report, one per position
  have hc₀ : (u.setSlot s (.done (final s))).Collecting g t (slots.map (expected final (s :: todo))) :=
    h.collecting.of_frame rfl (slot?_setSlot_ne _ hst)
  have hnone : ∀ j ∈ positions slots s, (slots.map (expected final (s :: todo)))[j]? = some none :=
    fun j hj => by simp [mem_positions.mp hj, expected]
  obtain ⟨res', hc', hres', hside⟩ := hc₀.reports (final s) n _ (nodup_positions slots s) hnone
  have hres : res' = slots.map (expected final todo) :=
    List.ext_getElem? fun i => (hres' i).trans (results_settle hs i)
  rw [hres] at hc'
  refine ⟨⟨hc', fun s' hs' => ?_, fun s' hs' hst' => ?_,
    fun s' hs' => h.inputs s' (List.mem_cons_of_mem _ hs'), h.apart⟩, hside.twice⟩
  · have hne : s ≠ s' := fun hss => hs (hss ▸ hs')
    rw [hside.slots s' (h.ne_target (h.inputs s' (List.mem_cons_of_mem _ hs'))),
      slot?_setSlot_ne _ hne]
    exact h.waiting s' (List.mem_cons_of_mem _ hs')
  · rw [hside.slots s' (h.ne_target hs')]
    by_cases hss : s' = s
    · subst hss
      exact slot?_setSlot_self hwait _
    · rw [slot?_setSlot_ne _ (Ne.symm hss)]
      exact h.done s' hs' (by simp [hss, hst'])

/-- Settling the pending inputs one after the other, in the order of `todo`, keeps the
combination at rest with the inputs not yet settled. -/
theorem Combining.settleAll (n : Nat) :
    ∀ {u : World} (todo : List Nat) (k : Nat), todo.Nodup → u.Combining g t slots final todo →
      (((todo.take k).forM fun s => OrderedState.settle (n + 3) s (final s)).run u).2.Combining
          g t slots final (todo.drop k) ∧
        (((todo.take k).forM fun s => OrderedState.settle (n + 3) s (final s)).run u).2.resolvedTwice =
          u.resolvedTwice
  | u, [], k, _, h => by simp only [List.take_nil, List.drop_nil]; exact ⟨h, rfl⟩
  | u, s :: todo, 0, _, h => ⟨h, rfl⟩
  | u, s :: todo, k + 1, hnd, h => by
    obtain ⟨hs, hnd⟩ := List.nodup_cons.mp hnd
    rw [List.take_succ_cons, List.drop_succ_cons, Run.run_forM_cons]
    obtain ⟨h₁, htwice₁⟩ := h.settle hs n
    obtain ⟨h', htwice'⟩ := Combining.settleAll n todo k hnd h₁
    exact ⟨h', htwice'.trans htwice₁⟩

end World

/-- Making the combination of a nonempty list adds its future and its record, then registers it
on every input in order. -/
theorem combine_run_cons (fuel a : Nat) (rest : List Nat) (w : World) :
    (combine fuel (a :: rest)).run w =
      (w.slots.size, (((a :: rest).zipIdx.forM fun x => attach fuel x.1 (.gather w.gathers.size x.2)).run
        { w with slots := w.slots.push (.pending []), gathers := (w.gathers.push
          ⟨(a :: rest).map fun _ => none, (a :: rest).length, w.slots.size⟩) }).2) := rfl

/-- A combination of futures gathers their results in list order, whatever order they are
settled in. Take inputs `slots`, each either done with its final result or pending with nothing
waiting on it, and settle the pending ones, each with its final result, in any order `order`.
Until the last of them is settled the combination's future waits; then it is done with the
values in list order when every input succeeded, and otherwise with the error of the first
input in list order that failed. No future is resolved twice on the way. -/
theorem combine_quiet_resolves {n : Nat} {w w₁ : World} {slots order : List Nat}
    {t : Nat} {final : Nat → Outcome}
    (hin : ∀ s ∈ slots, w.slot? s = some (.done (final s)) ∨ s ∈ order)
    (hord : order.Nodup) (hpend : ∀ s ∈ order, s ∈ slots ∧ w.slot? s = some (.pending []))
    (hc : (combine (n + 3) slots).run w = (t, w₁)) :
    (∀ k < order.length,
      (((order.take k).forM fun s => settle (n + 3) s (final s)).run w₁).2.slot? t =
        some (.pending [])) ∧
      ((order.forM fun s => settle (n + 3) s (final s)).run w₁).2.resolvedTwice =
        w.resolvedTwice ∧
      ∃ out, ((order.forM fun s => settle (n + 3) s (final s)).run w₁).2.slot? t =
          some (.done out) ∧
        (∀ vs : List Json, slots.map final = vs.map .ok → out = .ok (.array vs)) ∧
        (∀ pre e post, slots.map final = pre ++ .error e :: post →
          (∀ x ∈ pre, ∃ v, x = .ok v) → out = .error e) := by
  -- the combined outcome is read off the final results in list order
  suffices h : (∀ k < order.length,
      (((order.take k).forM fun s => settle (n + 3) s (final s)).run w₁).2.slot? t =
        some (.pending [])) ∧
      ((order.forM fun s => settle (n + 3) s (final s)).run w₁).2.resolvedTwice =
        w.resolvedTwice ∧
      ((order.forM fun s => settle (n + 3) s (final s)).run w₁).2.slot? t =
        some (.done (Gather.outcome ((slots.map final).map some))) by
    obtain ⟨hwait, htwice, hdone⟩ := h
    exact ⟨hwait, htwice, _, hdone, fun vs hvs => Gather.outcome_ok hvs,
      fun pre e post hxs hpre => Gather.outcome_error hxs hpre⟩
  cases slots with
  | nil =>
    -- nothing to wait for: the combination is done at once, with no values
    have horder : order = [] :=
      List.eq_nil_iff_forall_not_mem.mpr fun s hs => by simpa using (hpend s hs).1
    subst horder
    obtain ⟨rfl, rfl⟩ := Prod.mk.inj hc
    exact ⟨fun k hk => absurd hk (Nat.not_lt_zero k), rfl, World.slot?_push_self rfl⟩
  | cons a rest =>
    rw [combine_run_cons] at hc
    obtain ⟨rfl, rfl⟩ := Prod.mk.inj hc
    obtain ⟨hreg, htwice₀⟩ :=
      (World.Registering.start (List.cons_ne_nil a rest) hin hpend).attachAll n (a :: rest)
    rw [List.nil_append] at hreg
    have hcomb := hreg.combining
    refine ⟨fun k hk => ?_, ?_, ?_⟩
    · refine (hcomb.settleAll n order k hord).1.pending ?_
      simpa using hk
    · have htwice := (hcomb.settleAll n order order.length hord).2
      rw [List.take_length] at htwice
      exact htwice.trans htwice₀
    · have hlast := (hcomb.settleAll n order order.length hord).1
      rw [List.take_length, List.drop_length] at hlast
      exact hlast.finished

end OrderedState
