import OrderedState.Proofs.Combine
import Mathlib.Data.List.Induction

/-!
# Combining futures that others wait on

`Combine` follows a combination of futures on which nothing else waits. Here its pending inputs
may carry continuations of their own, registered before the combination, or after it by the
continuations that run meanwhile. They run when an input is settled, before and after the
combination's own, and may do anything the thread does: settle and derive futures, run
operations, take completions.

In a world the thread reaches (`World.Unshared`), where the thread holds the promises of the
pending inputs, none of that reaches the combination. `World.Tracking` says that combination
`g` keeps its record `gr` as long as nothing reports to it, and every step of the interpreter
keeps it (`Tracking.threadInvariant`). A combination never has more continuations out than
results missing. The combination's continuations that have not run all sit on pending inputs
that only the thread may settle, or further down the thread's stack. So their count pins the
record down after any run of other continuations (`Tracking.record_of_count`).

`World.Gathering` is the combination at rest: its record holds the results of the inputs that
are done, and each pending input waits with the combination's continuations for its positions
among continuations of its own. Registering the combination reaches it (`Gathering.start`), and
settling an input keeps it (`Gathering.settle`).

Main statement: `combine_resolves_in_list_order`, for inputs on which nothing waits in any world,
and for inputs with continuations in the worlds the thread reaches.
-/

namespace OrderedState

namespace World

variable {ps : List Nat} {D D' : List Cont} {w w' : World} {g t : Nat} {gr : Gather}

/-! ## Steps that leave the combinations alone -/

theorem gathers_onController (f : Controller Ticket → Controller Ticket) :
    (w.onController f).gathers = w.gathers := by
  unfold onController
  split <;> rfl

theorem gathers_submitTo (c : Controller Ticket) (h : Handle) (ns : Bytes) (op : Operation) :
    (w.submitTo c h ns op).2.gathers = w.gathers := by
  unfold submitTo
  dsimp only
  split <;> rfl

theorem gathers_runDirect (d : Direct) (h : Handle) (ns : Bytes) (op : Operation) :
    (w.runDirect d h ns op).2.gathers = w.gathers := by
  unfold runDirect
  split
  · rfl
  · dsimp only
    split <;> rfl

theorem gathers_beginCompletion {o : Option (Except StateError Response × Ticket × Nat ×
    Option RecordContext)} (hb : w.beginCompletion = (o, w')) : w'.gathers = w.gathers := by
  unfold World.beginCompletion at hb
  split at hb
  · split at hb <;> cases hb <;> rfl
  · cases hb; rfl

/-- A report to another combination leaves `g`'s record alone. -/
theorem gathers_gatherResult_ne {g' : Nat} (hg : g' ≠ g) (j : Nat) (r : Outcome) :
    (w.gatherResult g' j r).2.gathers[g]? = w.gathers[g]? := by
  unfold gatherResult
  split
  · rfl
  · dsimp only
    split <;> simp [hg]

/-- A report to `g` counts one result fewer missing. -/
theorem missing_gatherResult_self (j : Nat) (r : Outcome) :
    (w.gatherResult g j r).2.missing g = w.missing g - 1 := by
  unfold gatherResult
  split
  · next hnone => simp [missing, hnone]
  · next gr hgr =>
    dsimp only
    split <;> rw [missing_setGather hgr, if_pos rfl] <;> simp [missing, hgr]

/-! ## One combination's record, while others run -/

/-- Combination `g` keeps its record `gr` while nothing reports to it: with the promises `ps`
held and the continuations `D` on the stack, futures are single-assignment, and `g` misses at
most as many results as `gr` says, as many only while its record is `gr`. -/
structure Tracking (ps : List Nat) (g : Nat) (gr : Gather) (D : List Cont) (w : World) :
    Prop where
  unshared : Unshared ps D w
  below : w.missing g ≤ gr.remaining
  same : w.missing g = gr.remaining → w.gathers[g]? = some gr

namespace Tracking

theorem of_record (hu : Unshared ps D w) (hg : w.gathers[g]? = some gr) :
    w.Tracking ps g gr D := by
  have hm : w.missing g = gr.remaining := by simp [missing, hg]
  exact ⟨hu, Nat.le_of_eq hm, fun _ => hg⟩

/-- Only `g`'s record matters. -/
theorem of_gathers (h : w.Tracking ps g gr D) (hu : Unshared ps D' w')
    (hg : w'.gathers[g]? = w.gathers[g]?) : w'.Tracking ps g gr D' := by
  have hm : w'.missing g = w.missing g := by simp only [missing, hg]
  refine ⟨hu, by rw [hm]; exact h.below, fun he => ?_⟩
  rw [hg]
  exact h.same (hm ▸ he)

/-- A report to `g` itself finds a result missing, so after it `g` misses fewer results than
`gr` says. -/
theorem gather {g' j : Nat} (h : w.Tracking ps g gr (.gather g' j :: D)) (r : Outcome) :
    (w.gatherResult g' j r).2.Tracking ps g gr D ∧
      ∀ t out, (w.gatherResult g' j r).1 = some (t, out) →
        (w.gatherResult g' j r).2.Free ps D t := by
  obtain ⟨hu, hfree⟩ := h.unshared.gather r
  refine ⟨?_, hfree⟩
  by_cases hg : g' = g
  · subst hg
    have hpos : 1 ≤ w.missing g' := by
      have hs := h.unshared.shares g'
      simp only [List.cons_append, List.filterMap_cons, Cont.group, List.count_cons_self] at hs
      omega
    have hm := missing_gatherResult_self (w := w) (g := g') j r
    have hb := h.below
    exact ⟨hu, by omega, fun he => absurd he (by omega)⟩
  · exact h.of_gathers hu (gathers_gatherResult_ne hg j r)

/-- Every step of the interpreter keeps `g`'s record while nothing reports to it. -/
theorem threadInvariant (ps : List Nat) (g : Nat) (gr : Gather) :
    ThreadInvariant (Tracking ps g gr) (Free ps) where
  settle r h hs hks := h.of_gathers ((Unshared.threadInvariant ps).settle r h.unshared hs hks) rfl
  twice h hs hdone := h.of_gathers ((Unshared.threadInvariant ps).twice h.unshared hs hdone) rfl
  append h hks := h.of_gathers ((Unshared.threadInvariant ps).append h.unshared hks) rfl
  drop h := h.of_gathers ((Unshared.threadInvariant ps).drop h.unshared) rfl
  target h hk := (Unshared.threadInvariant ps).target h.unshared hk
  pair x h := h.of_gathers ((Unshared.threadInvariant ps).pair x h.unshared) rfl
  compose h := h.of_gathers ((Unshared.threadInvariant ps).compose h.unshared) rfl
  log r h := h.of_gathers ((Unshared.threadInvariant ps).log r h.unshared) rfl
  gather r h := h.gather r
  flush h := h.of_gathers ((Unshared.threadInvariant ps).flush h.unshared)
    (by rw [gathers_onController])
  collect h := h.of_gathers ((Unshared.threadInvariant ps).collect h.unshared)
    (by rw [gathers_onController])
  submit h' ns op h hc hfull :=
    h.of_gathers ((Unshared.threadInvariant ps).submit h' ns op h.unshared hc hfull)
      (by rw [gathers_submitTo])
  direct h' ns op h hd :=
    h.of_gathers ((Unshared.threadInvariant ps).direct h' ns op h.unshared hd)
      (by rw [gathers_runDirect])
  begin h hb :=
    ⟨h.of_gathers ((Unshared.threadInvariant ps).begin h.unshared hb).1
      (by rw [gathers_beginCompletion hb]), ((Unshared.threadInvariant ps).begin h.unshared hb).2⟩
  finish record previous h :=
    h.of_gathers ((Unshared.threadInvariant ps).finish record previous h.unshared)
      (by rw [endCompletion, gathers_onController])

/-- Once as many of `g`'s continuations are out as `gr` says results are missing, `g`'s record is
still `gr`. -/
theorem record_of_count (h : w.Tracking ps g gr D)
    (hcount : gr.remaining ≤ ((D ++ w.waiting).filterMap Cont.group).count g) :
    w.gathers[g]? = some gr :=
  h.same (Nat.le_antisymm h.below (Nat.le_trans hcount (h.unshared.shares g)))

end Tracking

/-! ## Counting the continuations out -/

theorem count_gathers (g : Nat) (js : List Nat) :
    ((js.map (Cont.gather g)).filterMap Cont.group).count g = js.length := by
  induction js with
  | nil => rfl
  | cons j js ih =>
    simp only [List.map_cons, List.filterMap_cons, Cont.group, List.count_cons_self, ih,
      List.length_cons]

/-- The continuations waiting on distinct pending futures are among those waiting in the
world. -/
theorem length_flatMap_le_waiting {f : Nat → List Nat} :
    ∀ {w : World} {todo : List Nat}, todo.Nodup →
      (∀ s ∈ todo, ∃ ks, w.slot? s = some (.pending ks) ∧
        (f s).length ≤ (ks.filterMap Cont.group).count g) →
      (todo.flatMap f).length ≤ (w.waiting.filterMap Cont.group).count g
  | _, [], _, _ => by simp
  | w, s :: todo, hnd, h => by
    obtain ⟨ks, hks, hc⟩ := h s List.mem_cons_self
    obtain ⟨hs, hnd⟩ := List.nodup_cons.mp hnd
    -- the others wait in the world without `s`'s list
    have hrest := length_flatMap_le_waiting (w := w.setSlot s (.done (.ok .null))) hnd
      fun s' hs' => by
        rw [slot?_setSlot_ne _ (by rintro rfl; exact hs hs')]
        exact h s' (List.mem_cons_of_mem _ hs')
    have hperm := ((waiting_setSlot hks (.done (.ok .null))).filterMap Cont.group).count_eq g
    simp only [Slot.waiting, List.append_nil, List.filterMap_append, List.count_append] at hperm
    simp only [List.flatMap_cons, List.length_append]
    omega

/-- Registering one more input adds a position to those of distinct inputs when it is one of
them. -/
theorem length_flatMap_positions_append {todo : List Nat} (hnd : todo.Nodup) (pre : List Nat)
    (a : Nat) :
    (todo.flatMap (positions (pre ++ [a]))).length =
      (todo.flatMap (positions pre)).length + if a ∈ todo then 1 else 0 := by
  induction todo with
  | nil => rfl
  | cons s todo ih =>
    obtain ⟨hs, hrest⟩ := List.nodup_cons.mp hnd
    simp only [List.flatMap_cons, List.length_append, positions_append_singleton, ih hrest]
    by_cases has : a = s
    · subst has
      rw [if_pos rfl, if_neg hs, if_pos List.mem_cons_self, List.length_singleton]
      omega
    · have hmem : (a ∈ s :: todo) = (a ∈ todo) := by simp [has]
      rw [if_neg has, List.length_nil]
      simp only [hmem]
      omega

/-- The positions of distinct inputs, taken together, are the positions whose result is
missing. -/
theorem length_flatMap_positions {todo : List Nat} (hnd : todo.Nodup) (final : Nat → Outcome)
    (slots : List Nat) :
    (todo.flatMap (positions slots)).length =
      (slots.map (expected final todo)).countP (·.isNone) := by
  induction slots using List.reverseRecOn with
  | nil => simp [positions_nil]
  | append_singleton pre a ih =>
    rw [length_flatMap_positions_append hnd, ih]
    by_cases ha : a ∈ todo <;> simp [expected, ha]

/-! ## A combination at rest, with others waiting -/

variable {slots todo : List Nat} {final : Nat → Outcome} {u : World}

/-- Combination `g` of `slots`, for the future `t`, at rest while the inputs `todo` are pending,
in a world the thread reaches holding the promises `ps`: the thread holds the pending inputs'
promises, each pending input waits with the combination's continuations for its positions
among continuations of its own, every other input is done with its final result, the
combination's record holds those results, and once no input is pending its future is done with
the combined outcome. -/
structure Gathering (ps : List Nat) (u : World) (g t : Nat) (slots : List Nat)
    (final : Nat → Outcome) (todo : List Nat) : Prop where
  unshared : Unshared ps [] u
  record : u.gathers[g]? = some ⟨slots.map (expected final todo),
    (slots.map (expected final todo)).countP (·.isNone), t⟩
  waiting : ∀ s ∈ todo, s ∈ ps ∧ ∃ pre post,
    u.slot? s = some (.pending (pre ++ (positions slots s).map (.gather g) ++ post))
  done : ∀ s ∈ slots, s ∉ todo → u.slot? s = some (.done (final s))
  inputs : ∀ s ∈ todo, s ∈ slots
  nodup : todo.Nodup
  finished : todo = [] → u.slot? t = some (.done (Gather.outcome ((slots.map final).map some)))

theorem countP_expected_pos {s : Nat} (hs : s ∈ todo) (hslots : s ∈ slots) :
    0 < (slots.map (expected final todo)).countP (·.isNone) :=
  List.countP_pos_iff.mpr ⟨none, List.mem_map.mpr ⟨s, hslots, by simp [expected, hs]⟩, rfl⟩

/-- While an input is pending, the combination holds its future, which is pending. -/
theorem Gathering.pending (h : u.Gathering ps g t slots final todo) (hne : todo ≠ []) :
    u.Pending t := by
  obtain ⟨s, hs⟩ := List.exists_mem_of_ne_nil todo hne
  have hpos : 0 < (slots.map (expected final todo)).countP (·.isNone) :=
    countP_expected_pos hs (h.inputs s hs)
  have hholds : t ∈ u.combining :=
    List.mem_flatMap.mpr ⟨_, Array.mem_toList_iff.mpr (Array.mem_of_getElem? h.record),
      by simp only [Gather.holds, if_neg (Nat.pos_iff_ne_zero.mp hpos), List.mem_singleton]⟩
  exact h.unshared.held.pending t (List.mem_append_right _ hholds)

section Settle

variable {s : Nat}

/-- While the thread holds their promises, the other pending inputs wait on, with the
combination's continuations, in every later world. -/
theorem Gathering.waits (h : u.Gathering ps g t slots final (s :: todo)) {v : World}
    (hv : Unshared (ps.erase s) D v) (ha : u.Advances v) :
    ∀ s' ∈ todo, ∃ pre post,
      v.slot? s' = some (.pending (pre ++ (positions slots s').map (.gather g) ++ post)) := by
  intro s' hs'
  obtain ⟨hps', pre, post, hks'⟩ := h.waiting s' (List.mem_cons_of_mem _ hs')
  have hne : s' ≠ s := fun he => (List.nodup_cons.mp h.nodup).1 (he ▸ hs')
  -- the thread still holds the promise, so the input is still pending
  obtain ⟨ks, hks⟩ := hv.held.pending s' (List.mem_append_left _ (List.mem_append_left _
    (List.mem_append_left _ ((List.mem_erase_of_ne hne).mpr hps'))))
  rcases ha.pending hks' with ⟨more, hmore⟩ | ⟨r, hdone⟩
  · exact ⟨pre, post ++ more, by rw [hmore]; simp⟩
  · rw [hks] at hdone
    cases hdone

/-- The continuations of the other pending inputs are out in every later world. -/
theorem Gathering.count_le (h : u.Gathering ps g t slots final (s :: todo)) {v : World}
    (hv : Unshared (ps.erase s) D v) (ha : u.Advances v) :
    (todo.flatMap (positions slots)).length ≤ (v.waiting.filterMap Cont.group).count g :=
  length_flatMap_le_waiting (List.nodup_cons.mp h.nodup).2 fun s' hs' => by
    obtain ⟨pre, post, hv'⟩ := h.waits hv ha s' hs'
    refine ⟨_, hv', ?_⟩
    simp only [List.filterMap_append, List.count_append, count_gathers]
    omega

/-- Whatever other continuations have run, combination `g` keeps a record `gr` that misses no
more results than its continuations on the stack and on the other pending inputs report. -/
theorem Gathering.record_after (h : u.Gathering ps g t slots final (s :: todo)) {v : World}
    (hT : v.Tracking (ps.erase s) g gr D) (ha : u.Advances v)
    (hcount : gr.remaining ≤
      (D.filterMap Cont.group).count g + (todo.flatMap (positions slots)).length) :
    v.gathers[g]? = some gr :=
  hT.record_of_count (by
    have hle := h.count_le hT.unshared ha
    simp only [List.filterMap_append, List.count_append]
    omega)

/-- The reports of distinct positions `js`, all missing, each record the result there; the one
that leaves none missing settles the combination's future, with whatever waits on it. -/
theorem reports (r : Outcome) (m : Nat) :
    ∀ {w : World} {res : List (Option Outcome)} (js : List Nat),
      Unshared ps (js.map (Cont.gather g) ++ D) w →
      w.gathers[g]? = some ⟨res, res.countP (·.isNone), t⟩ → js.Nodup →
      (∀ j ∈ js, res[j]? = some none) →
      (res.countP (·.isNone) = 0 → w.slot? t = some (.done (Gather.outcome res))) →
      ∃ res', Unshared ps D (((js.map (Cont.gather g)).forM fun k => resume (m + 2) k r).run w).2 ∧
        (((js.map (Cont.gather g)).forM fun k => resume (m + 2) k r).run w).2.gathers[g]? =
          some ⟨res', res'.countP (·.isNone), t⟩ ∧
        (∀ i, res'[i]? = if i ∈ js then some (some r) else res[i]?) ∧
        (res'.countP (·.isNone) = 0 →
          (((js.map (Cont.gather g)).forM fun k => resume (m + 2) k r).run w).2.slot? t =
            some (.done (Gather.outcome res')))
  | w, res, [], hu, hrec, _, _, hfin => ⟨res, hu, hrec, fun i => by simp, hfin⟩
  | w, res, j :: js, hu, hrec, hnd, hnone, _ => by
    obtain ⟨hj, hnd⟩ := List.nodup_cons.mp hnd
    have hjres := hnone j List.mem_cons_self
    obtain ⟨hlt, hjnone⟩ := List.getElem?_eq_some_iff.mp hjres
    have hcount : (res.set j (some r)).countP (·.isNone) = res.countP (·.isNone) - 1 := by
      rw [List.countP_set hlt, hjnone]
      simp
    -- the other positions are still missing
    have hnone' : ∀ j' ∈ js, (res.set j (some r))[j']? = some none := fun j' hj' => by
      rw [List.getElem?_set_ne (by rintro rfl; exact hj hj')]
      exact hnone j' (List.mem_cons_of_mem _ hj')
    rw [List.map_cons, List.cons_append] at hu
    have hg := hu.gather r
    have hworld := congrArg Prod.snd (gatherResult_of_record (j := j) (r := r) hrec)
    dsimp only at hworld
    rw [hworld] at hg
    rw [List.map_cons, Run.run_forM_cons, resume, Run.run_bind, Run.run_modifyGet,
      gatherResult_of_record hrec]
    dsimp only
    have hset : (w.gathers.setIfInBounds g ⟨res.set j (some r), res.countP (·.isNone) - 1, t⟩)[g]? =
        some ⟨res.set j (some r), (res.set j (some r)).countP (·.isNone), t⟩ := by
      simp [hcount, (Array.getElem?_eq_some_iff.mp hrec).1]
    by_cases hlast : res.countP (·.isNone) - 1 = 0
    · -- the last report: no other position is missing, and the future is settled
      obtain rfl : js = [] := List.eq_nil_iff_forall_not_mem.mpr fun j' hj' => by
        have hpos : 0 < (res.set j (some r)).countP (·.isNone) :=
          List.countP_pos_iff.mpr ⟨none, List.mem_of_getElem? (hnone' j' hj'), rfl⟩
        omega
      rw [if_pos hlast]
      dsimp only
      have h1 : (w.gatherResult g j r).1 = some (t, Gather.outcome (res.set j (some r))) := by
        rw [gatherResult_of_record hrec]
        exact if_pos hlast
      have hfree := hg.2 _ _ h1
      obtain ⟨ks, hks⟩ := hfree.1
      rw [List.map_nil, Run.run_forM_nil, settle_pending hks]
      -- the future's own continuations run once it is done; none reports to the combination
      have hT := ((Tracking.threadInvariant ps g _).keeps m).resumeAll ks
        (Gather.outcome (res.set j (some r))) D _
        (Tracking.of_record (hg.1.settle hfree hks (Gather.outcome (res.set j (some r)))) hset)
      refine ⟨res.set j (some r), hT.unshared,
        hT.record_of_count (by rw [hcount, hlast]; exact Nat.zero_le _), fun i => ?_,
        fun _ => (resumeAll_advances ks _).done (slot?_setSlot_self hks _)⟩
      by_cases hij : i = j
      · subst hij
        simp [List.getElem?_set_self hlt]
      · rw [List.getElem?_set_ne (Ne.symm hij)]
        simp [hij]
    · rw [if_neg hlast]
      dsimp only
      obtain ⟨res', hu', hrec', hres', hfin'⟩ := reports r m js hg.1 hset hnd hnone'
        (fun h0 => absurd (hcount ▸ h0) hlast)
      refine ⟨res', hu', hrec', fun i => ?_, hfin'⟩
      rw [hres' i]
      by_cases hij : i = j
      · subst hij
        rw [if_neg hj, if_pos List.mem_cons_self, List.getElem?_set_self hlt]
      · rw [List.getElem?_set_ne (Ne.symm hij)]
        simp [hij]

/-- Settling a pending input with its final result runs, in order, the continuations that wait
before the combination's, the combination's for the input's positions, which record the result
there, and those that wait after; whatever the others do, the combination is at rest again with
the inputs `todo` pending, and the thread has used up the input's promise. -/
theorem Gathering.settle (h : u.Gathering ps g t slots final (s :: todo)) (n : Nat) :
    ((OrderedState.settle (n + 3) s (final s)).run u).2.Gathering (ps.erase s) g t slots final
      todo := by
  obtain ⟨hps, pre, post, hks⟩ := h.waiting s List.mem_cons_self
  obtain ⟨hu, hfree⟩ := h.unshared.resolve hps
  obtain ⟨hs, hnd⟩ := List.nodup_cons.mp h.nodup
  have hu₁ : Unshared (ps.erase s) (pre ++ ((positions slots s).map (.gather g) ++ post))
      (u.setSlot s (.done (final s))) := by
    simpa only [List.append_nil, List.append_assoc] using hu.settle hfree hks (final s)
  have hadv₁ : u.Advances (u.setSlot s (.done (final s))) :=
    (Advances.refl u).setSlot hks (.settle _ _)
  rw [settle_pending hks, Run.run_forM_append, Run.run_forM_append]
  -- the continuations before the combination's leave its record alone
  have hT₂ := ((Tracking.threadInvariant (ps.erase s) g _).keeps (n + 2)).resumeAll pre (final s)
    _ _ (Tracking.of_record hu₁ h.record)
  have hadv₂ := hadv₁.trans (resumeAll_advances (n := n + 2) pre (final s))
  have hsum := length_flatMap_positions h.nodup final slots
  simp only [List.flatMap_cons, List.length_append] at hsum
  have hrec₂ := h.record_after hT₂ hadv₂ (by
    simp only [List.filterMap_append, List.count_append, count_gathers]
    omega)
  -- the combination's own continuations record the result at the input's positions
  have hnone : ∀ j ∈ positions slots s,
      (slots.map (expected final (s :: todo)))[j]? = some none :=
    fun j hj => by simp [mem_positions.mp hj, expected]
  obtain ⟨res, hu₃, hrec₃, hres, hfin₃⟩ := reports (final s) n (positions slots s) hT₂.unshared
    hrec₂ (nodup_positions slots s) hnone fun h0 =>
      absurd h0 (Nat.pos_iff_ne_zero.mp (countP_expected_pos List.mem_cons_self
        (h.inputs s List.mem_cons_self)))
  have hres' : res = slots.map (expected final todo) :=
    List.ext_getElem? fun i => (hres i).trans (results_settle hs i)
  subst hres'
  -- and the continuations after them leave it alone again
  have hT₄ := ((Tracking.threadInvariant (ps.erase s) g _).keeps (n + 2)).resumeAll post
    (final s) [] _ (Tracking.of_record (by rwa [List.append_nil]) hrec₃)
  have hadv₁₄ := (resumeAll_advances (n := n + 2) (w := u.setSlot s (.done (final s))) pre
      (final s)).trans
    ((resumeAll_advances (n := n + 2) ((positions slots s).map (.gather g)) (final s)).trans
      (resumeAll_advances (n := n + 2) post (final s)))
  have hadv₄ := hadv₁.trans hadv₁₄
  refine ⟨hT₄.unshared, h.record_after hT₄ hadv₄ ?_,
    fun s' hs' => ⟨?_, h.waits hT₄.unshared hadv₄ s' hs'⟩, fun s' hs' hst' => ?_,
    fun s' hs' => h.inputs s' (List.mem_cons_of_mem _ hs'), hnd, fun hnil => ?_⟩
  · rw [← length_flatMap_positions hnd final slots]
    simp
  · exact (List.mem_erase_of_ne (by rintro rfl; exact hs hs')).mpr
      (h.waiting s' (List.mem_cons_of_mem _ hs')).1
  · by_cases hss : s' = s
    · subst hss
      exact hadv₁₄.done (slot?_setSlot_self hks _)
    · exact hadv₄.done (h.done s' hs' (by simp [hss, hst']))
  · subst hnil
    have h0 : (slots.map (expected final [])).countP (·.isNone) = 0 := by
      rw [← length_flatMap_positions List.nodup_nil final slots]
      rfl
    rw [← expected_nil]
    exact (resumeAll_advances post (final s)).done (hfin₃ h0)

/-- Settling the pending inputs one after the other, in the order of `todo`, keeps the
combination at rest with the inputs not yet settled, and uses up their promises. -/
theorem Gathering.settleAll (n : Nat) :
    ∀ {ps : List Nat} {u : World} (todo : List Nat) (k : Nat),
      u.Gathering ps g t slots final todo →
      (((todo.take k).forM fun s => OrderedState.settle (n + 3) s (final s)).run u).2.Gathering
        (ps.diff (todo.take k)) g t slots final (todo.drop k)
  | ps, u, [], k, h => by
    rw [List.take_nil, List.drop_nil, Run.run_forM_nil, List.diff_nil]
    exact h
  | ps, u, s :: todo, 0, h => by
    rw [List.take_zero, List.drop_zero, Run.run_forM_nil, List.diff_nil]
    exact h
  | ps, u, s :: todo, k + 1, h => by
    rw [List.take_succ_cons, List.drop_succ_cons, Run.run_forM_cons, List.diff_cons]
    exact Gathering.settleAll n todo k (h.settle n)

/-- Making the combination of a nonempty list in a world the thread reaches, of inputs each
done with its final result or pending with its promise held by the thread, whatever waits on
them, leaves the combination at rest. -/
theorem Gathering.start {w w₁ : World} {n : Nat} (hu : Unshared ps [] w) (hne : slots ≠ [])
    (hin : ∀ s ∈ slots, w.slot? s = some (.done (final s)) ∨ s ∈ todo) (hnd : todo.Nodup)
    (hheld : ∀ s ∈ todo, s ∈ slots ∧ s ∈ ps) (hc : (combine (n + 3) slots).run w = (t, w₁)) :
    w₁.Gathering ps w.gathers.size t slots final todo := by
  have hu₁ : Unshared ps [] w₁ := by
    have h := Unshared.callInvariant.keeps_combine ps (n + 3) slots w hu
    rwa [hc] at h
  -- each pending input keeps the continuations it had, ahead of the combination's
  have hpend : ∀ s ∈ todo, s ∈ slots ∧
      w.slot? s = some (.pending (((w.slot? s).map Slot.waiting).getD [])) := fun s hs => by
    obtain ⟨ks, hks⟩ := hu.held.pending s (List.mem_append_left _ (List.mem_append_left _
      (List.mem_append_left _ (hheld s hs).2)))
    exact ⟨(hheld s hs).1, by simp [hks, Slot.waiting]⟩
  cases slots with
  | nil => exact absurd rfl hne
  | cons a rest =>
    rw [combine_run_cons] at hc
    obtain ⟨rfl, rfl⟩ := Prod.mk.inj hc
    obtain ⟨hreg, -⟩ := (Registering.start hne hin hpend).attachAll n (a :: rest)
    rw [List.nil_append] at hreg
    obtain ⟨⟨hrec, htarget⟩, hwait, hdone, hinputs, -⟩ := hreg
    simp only [List.map_nil, List.append_nil] at hrec htarget
    refine ⟨hu₁, hrec, fun s hs => ⟨(hheld s hs).2, ((w.slot? s).map Slot.waiting).getD [], [], ?_⟩,
      fun s hs hst => hdone s (by simpa using hs) hst, fun s hs => by simpa using hinputs s hs,
      hnd, fun hnil => ?_⟩
    · rw [List.append_nil]
      exact hwait s hs
    · subst hnil
      have h0 : ((a :: rest).map (expected final [])).countP (·.isNone) = 0 := by
        rw [← length_flatMap_positions List.nodup_nil final (a :: rest)]
        rfl
      rw [if_pos h0, expected_nil] at htarget
      exact htarget

end Settle

end World

open World

/-- A combination of futures that others wait on, made in a world the thread reaches, gathers
their results in list order whatever order the thread settles them in and whatever their other
continuations do: its future stays pending until the last input is settled, and is then done
with the results in list order. The thread has used up the inputs' promises, and every future is
still single-assignment. -/
theorem combine_held_resolves {ps : List Nat} {n : Nat} {w w₁ : World} {slots order : List Nat}
    {t : Nat} {final : Nat → Outcome} (hu : Unshared ps [] w)
    (hin : ∀ s ∈ slots, w.slot? s = some (.done (final s)) ∨ s ∈ order) (hord : order.Nodup)
    (hheld : ∀ s ∈ order, s ∈ slots ∧ s ∈ ps) (hc : (combine (n + 3) slots).run w = (t, w₁)) :
    (∀ k < order.length,
      (((order.take k).forM fun s => settle (n + 3) s (final s)).run w₁).2.Pending t) ∧
    Unshared (ps.diff order) [] ((order.forM fun s => settle (n + 3) s (final s)).run w₁).2 ∧
    ((order.forM fun s => settle (n + 3) s (final s)).run w₁).2.slot? t =
      some (.done (Gather.outcome ((slots.map final).map some))) := by
  cases slots with
  | nil =>
    -- nothing to wait for: the combination is done at once, with no values
    have horder : order = [] :=
      List.eq_nil_iff_forall_not_mem.mpr fun s hs => by simpa using (hheld s hs).1
    subst horder
    have hu₁ := Unshared.callInvariant.keeps_combine ps (n + 3) [] w hu
    rw [hc] at hu₁
    obtain ⟨rfl, rfl⟩ := Prod.mk.inj hc
    exact ⟨fun k hk => absurd hk (Nat.not_lt_zero k), hu₁, slot?_push_self rfl⟩
  | cons a rest =>
    have hg := Gathering.start hu (List.cons_ne_nil a rest) hin hord hheld hc
    have hlast := hg.settleAll n order order.length
    rw [List.take_length, List.drop_length] at hlast
    exact ⟨fun k hk => (hg.settleAll n order k).pending (by simpa using hk), hlast.unshared,
      hlast.finished rfl⟩

/-- A combination of futures gathers their results in list order, whatever order they are
settled in. Take inputs `slots`, each done with its final result or pending, and settle the
pending ones, each with its final result, in any order `order`. Until the last of them is settled
the combination's future waits; then it is done with the values in list order when every input
succeeded, and otherwise with the error of the first input in list order that failed. This holds
in any world when nothing else waits on the pending inputs, with no future resolved twice on the
way; and in every world the thread reaches, where the thread holds the pending inputs' promises
and anything may wait on them. -/
theorem combine_resolves_in_list_order :
    (∀ {n : Nat} {w w₁ : World} {slots order : List Nat} {t : Nat} {final : Nat → Outcome},
      (∀ s ∈ slots, w.slot? s = some (.done (final s)) ∨ s ∈ order) → order.Nodup →
      (∀ s ∈ order, s ∈ slots ∧ w.slot? s = some (.pending [])) →
      (combine (n + 3) slots).run w = (t, w₁) →
      (∀ k < order.length,
        (((order.take k).forM fun s => settle (n + 3) s (final s)).run w₁).2.slot? t =
          some (.pending [])) ∧
        ((order.forM fun s => settle (n + 3) s (final s)).run w₁).2.resolvedTwice =
          w.resolvedTwice ∧
        ∃ out, ((order.forM fun s => settle (n + 3) s (final s)).run w₁).2.slot? t =
            some (.done out) ∧
          (∀ vs : List Json, slots.map final = vs.map .ok → out = .ok (.array vs)) ∧
          (∀ pre e post, slots.map final = pre ++ .error e :: post →
            (∀ x ∈ pre, ∃ v, x = .ok v) → out = .error e)) ∧
    (∀ {cfg : Config} {ps : List Nat} {n : Nat} {w w₁ : World} {slots order : List Nat}
        {t : Nat} {final : Nat → Outcome}, Reaches cfg (ps, w) →
      (∀ s ∈ slots, w.slot? s = some (.done (final s)) ∨ s ∈ order) → order.Nodup →
      (∀ s ∈ order, s ∈ slots ∧ s ∈ ps) →
      (combine (n + 3) slots).run w = (t, w₁) →
      (∀ k < order.length,
        (((order.take k).forM fun s => settle (n + 3) s (final s)).run w₁).2.Pending t) ∧
        ((order.forM fun s => settle (n + 3) s (final s)).run w₁).2.resolvedTwice = false ∧
        ∃ out, ((order.forM fun s => settle (n + 3) s (final s)).run w₁).2.slot? t =
            some (.done out) ∧
          (∀ vs : List Json, slots.map final = vs.map .ok → out = .ok (.array vs)) ∧
          (∀ pre e post, slots.map final = pre ++ .error e :: post →
            (∀ x ∈ pre, ∃ v, x = .ok v) → out = .error e)) := by
  refine ⟨fun hin hord hpend hc => combine_quiet_resolves hin hord hpend hc,
    fun hw hin hord hheld hc => ?_⟩
  obtain ⟨hwait, hu, hdone⟩ := combine_held_resolves hw.unshared hin hord hheld hc
  exact ⟨hwait, hu.clean, _, hdone, fun vs hvs => Gather.outcome_ok hvs,
    fun pre e post hxs hpre => Gather.outcome_error hxs hpre⟩

/-- The thread makes two promises and maps the first into a new future, so that a continuation
waits on it; the combination of the first, the second and the first again waits once the second
is resolved, and once the first is too it is done with their values in list order. Around a
future that is done, with nothing waiting on the pending one, the same combination resolves the
same way. -/
theorem combine_clones_resolve :
    let final : Nat → Outcome := fun s => if s = 0 then .ok (.bool true) else .ok .null
    let w := ((Call.run 1 (.derive 0 (.map fun x => .ok (.array [x])))).run
      (((initial {}).2.newSlot (.pending [])).2.newSlot (.pending [])).2).2
    (∃ t w₁, (combine 3 [0, 1, 0]).run
        { handler := .controller { config := {} }, slots := #[.pending [], .done (.ok .null)] } =
        (t, w₁) ∧
      (([0].forM fun s => settle 3 s (final s)).run w₁).2.slot? t =
        some (.done (.ok (.array [.bool true, .null, .bool true])))) ∧
    (w.slot? 0).map (fun sl => sl.waiting.length) = some 1 ∧
    ∃ t w₁, (combine 3 [0, 1, 0]).run w = (t, w₁) ∧
      ((([1, 0].take 1).forM fun s => settle 3 s (final s)).run w₁).2.Pending t ∧
      (([1, 0].forM fun s => settle 3 s (final s)).run w₁).2.slot? t =
        some (.done (.ok (.array [.bool true, .null, .bool true]))) := by
  intro final w
  have hvs : [0, 1, 0].map final = [.bool true, .null, .bool true].map .ok := rfl
  -- nothing waits on the pending input
  obtain ⟨t₀, w₀, hc₀⟩ : ∃ t w₁, (combine 3 [0, 1, 0]).run
      { handler := .controller { config := {} }, slots := #[.pending [], .done (.ok .null)] } =
      (t, w₁) := ⟨_, _, rfl⟩
  obtain ⟨hquiet, hreached⟩ := combine_resolves_in_list_order
  obtain ⟨-, -, out₀, hdone₀, hok₀, -⟩ := @hquiet 0 _ _ _ [0] _ final
    (by
      intro s hs
      simp only [List.mem_cons, List.not_mem_nil, or_false] at hs
      rcases hs with rfl | rfl | rfl
      · exact Or.inr List.mem_cons_self
      · exact Or.inl rfl
      · exact Or.inr List.mem_cons_self)
    (by decide)
    (by
      intro s hs
      rw [List.mem_singleton] at hs
      subst hs
      exact ⟨List.mem_cons_self, rfl⟩) hc₀
  -- a continuation waits on the first input
  have hr : Reaches {} ([1, 0], w) :=
    ((Relation.ReflTransGen.single Next.promise).tail Next.promise).tail
      (Next.call (.derive 0 (.map fun x => .ok (.array [x]))) 1)
  obtain ⟨t, w₁, hc⟩ : ∃ t w₁, (combine 3 [0, 1, 0]).run w = (t, w₁) := ⟨_, _, rfl⟩
  obtain ⟨hwait, -, out, hdone, hok, -⟩ := @hreached {} [1, 0] 0 w _ _ [1, 0] _ final hr
    (fun s hs => Or.inr (by simp only [List.mem_cons, List.not_mem_nil, or_false] at hs ⊢; omega))
    (by decide) (by decide) hc
  exact ⟨⟨t₀, w₀, hc₀, hok₀ _ hvs ▸ hdone₀⟩, by decide +kernel, t, w₁, hc,
    hwait 1 (by decide), hok _ hvs ▸ hdone⟩

end OrderedState
