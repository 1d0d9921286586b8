import Mathlib.Data.Set.Card
import OutRelay.PlaneHandshake

/-!
# What a release leaves

Three operations take allocations out of the plane: `Forget` one, `ForgetAgent`
those of an agent, and `gcOnce` those that have been idle for too long. Each has
its own loop over the five tables, two of them in an order Go leaves open.

They have one specification (`Plane.ReleasedExactly`). What is released is in no
table any more; what is not keeps its entry, its place in the index by owner and
its handshake rows – for `gcOnce`, those that have not expired. Nothing is said
of the reverse index of the survivors, which is dropped by address. The order of
the loops plays no part, and a release repeated at once finds nothing to do.
-/

namespace Plane

variable {p q : Plane} {id k : UInt32} {uri : GoString} {now : Time}

/-- **No table mentions `k`.** -/
structure Unmentioned (p : Plane) (k : UInt32) : Prop where
  byAlloc : p.byAlloc.get k = none
  byURI : ∀ u, ¬ Owned p.byURI u k
  src2id : ∀ a, p.src2id.get a ≠ some k
  rows : p.row k = ⟨none, none⟩

/-- **`q` is `p` with exactly the allocations of `D` released**, and the rows of the
others as `f` leaves them. -/
structure ReleasedExactly (p q : Plane) (D : UInt32 → Prop) (f : Row → Row) : Prop where
  gone : ∀ k, D k → q.Unmentioned k
  kept : ∀ k, ¬ D k → q.byAlloc.get k = p.byAlloc.get k
  owners : ∀ u k, ¬ D k → (Owned q.byURI u k ↔ Owned p.byURI u k)
  rows : ∀ k, ¬ D k → q.row k = f (p.row k)

/-- The rows that have not expired. -/
def Row.unexpired (now : Time) (r : Row) : Row :=
  ⟨r.pending.filter (fun x => now ≤ x.expires), r.queued.filter (fun x => now ≤ x.expires)⟩

/-- Where the tables agree, an id that is neither live nor in a waiting room is
nowhere. -/
theorem TableInv.unmentioned (h : p.TableInv) (hk : p.byAlloc.get k = none)
    (hrow : p.row k = ⟨none, none⟩) : p.Unmentioned k := by
  have hown : p.ownerOf k = none := ownerOf_eq_none.mpr hk
  refine ⟨hk, fun u hu => ?_, fun a ha => ?_, hrow⟩
  · cases hown.symm.trans ((h.owned_iff u k).mp hu)
  · have hlook := (h.src2id a k ha).1
    rw [lookup, hk] at hlook
    cases hlook

/-- The specification, from what a release does to `byAlloc` and to the rows. -/
theorem Released.exactly {L : List UInt32} {D : UInt32 → Prop} {f : Row → Row}
    (h : p.TableInv) (hr : Released p q L) (hL : ∀ k ∈ L, D k)
    (hD : ∀ k, D k → q.byAlloc.get k = none ∧ q.row k = ⟨none, none⟩)
    (hrows : ∀ k, ¬ D k → q.row k = f (p.row k)) : ReleasedExactly p q D f where
  gone k hk := (h.released hr).unmentioned (hD k hk).1 (hD k hk).2
  kept k hk := by rw [hr.byAlloc, if_neg (fun hmem => hk (hL k hmem))]
  owners u k hk := by
    rw [hr.owned]
    exact and_iff_left (fun hmem => hk (hL k hmem))
  rows := hrows

/-! ## One allocation -/

/-- **`Forget` releases one allocation.** -/
theorem TableInv.forget_exact (h : p.TableInv) (id : UInt32) :
    ReleasedExactly p (p.forget id) (fun k => k = id) (fun r => r) := by
  have hr := h.released_forget id
  refine hr.exactly h (fun k hk => ?_) (fun k hk => ⟨?_, ?_⟩) (fun k hk => ?_)
  · split_ifs at hk
    · exact List.mem_singleton.mp hk
    · exact absurd hk List.not_mem_nil
  · subst hk
    rw [hr.byAlloc]
    cases hget : p.byAlloc.get k <;> simp
  · rw [row_forget, if_pos hk.symm]
  · rw [row_forget, if_neg (Ne.symm hk)]

theorem forget_of_unmentioned (hk : p.Unmentioned id) : p.forget id = p := by
  have hpend : p.pending.get id = none := congrArg Row.pending hk.rows
  have hqueued : p.queued.get id = none := congrArg Row.queued hk.rows
  unfold forget
  rw [hk.byAlloc]
  dsimp only
  unfold reap
  rw [GoMap.del_of_get_none hpend, GoMap.del_of_get_none hqueued]

/-! ## The allocations of an agent -/

theorem SetOrder.perm {order order' : List UInt32} (h : p.SetOrder uri order)
    (h' : p.SetOrder uri order') : order.Perm order' :=
  List.perm_of_nodup_nodup_toFinset_eq h.1 h'.1 (h.2.trans h'.2.symm)

/-- **`ForgetAgent` releases the allocations of the agent.** -/
theorem TableInv.forgetAgent_exact (h : p.TableInv) (hnil : ∀ k, p.ownerOf k ≠ some [])
    {order : List UInt32} (ho : p.SetOrder uri order) :
    ReleasedExactly p (p.forgetAgent uri order).fst (fun k => p.ownerOf k = some uri)
      (fun r => r) := by
  have hr := h.released_forgetAgent ho
  have hne : ∀ {k}, p.ownerOf k = some uri → uri ≠ [] := fun hk huri => hnil _ (huri ▸ hk)
  have hrow : ∀ k, (p.forgetAgent uri order).fst.row k
      = if p.ownerOf k = some uri then ⟨none, none⟩ else p.row k := by
    intro k
    rw [row_forgetAgent ho]
    refine if_congr ?_ rfl rfl
    rw [← ho.2, List.mem_toFinset, h.mem_setOrder ho]
    refine ⟨fun hk => hk.2.1, fun hk => ⟨hne hk, hk, fun hnone => ?_⟩⟩
    cases (ownerOf_eq_none.mpr hnone).symm.trans hk
  refine hr.exactly h (fun k hk => ?_) (fun k hk => ⟨?_, ?_⟩) (fun k hk => ?_)
  · split_ifs at hk
    · exact absurd hk List.not_mem_nil
    · exact (h.mem_setOrder ho k).mp hk
  · rw [hr.byAlloc, if_neg (hne hk), if_pos ((h.mem_setOrder ho k).mpr hk)]
  · rw [hrow, if_pos hk]
  · rw [hrow, if_neg hk]

/-- It returns how many there were. -/
theorem TableInv.forgetAgent_count (h : p.TableInv) (hnil : ∀ k, p.ownerOf k ≠ some [])
    {order : List UInt32} (ho : p.SetOrder uri order) :
    (p.forgetAgent uri order).snd = {k | p.ownerOf k = some uri}.ncard := by
  have hset : {k | p.ownerOf k = some uri} = (order.toFinset : Set UInt32) := by
    ext k
    rw [Finset.mem_coe, List.mem_toFinset]
    exact (h.mem_setOrder ho k).symm
  rw [hset, Set.ncard_coe_finset, List.toFinset_card_of_nodup ho.1]
  unfold forgetAgent
  by_cases huri : uri = []
  · have hempty : order = [] := List.eq_nil_iff_forall_not_mem.mpr fun k hk =>
      hnil k (huri ▸ (h.mem_setOrder ho k).mp hk)
    rw [if_pos huri, hempty]
    rfl
  · rw [if_neg huri]
    cases hget : p.byURI.get uri with
    | none =>
      have hempty : order = [] := by
        rw [← List.toFinset_eq_empty_iff, ho.2, hget]
        rfl
      rw [hempty]
      rfl
    | some set =>
      have hlive : ∀ id ∈ order, ∃ e, p.byAlloc.get id = some e := fun id hid =>
        (Option.map_eq_some_iff.mp ((h.mem_setOrder ho id).mp hid)).imp (fun _ he => he.1)
      dsimp only
      rw [foldl_forgetAgentRound order ho.1 hlive]
      exact Nat.zero_add _

/-- An agent that has been forgotten owns nothing. -/
theorem forgetAgent_forgotten (p : Plane) (uri : GoString) (order order' : List UInt32) :
    (p.forgetAgent uri order).fst.forgetAgent uri order' = ((p.forgetAgent uri order).fst, 0) := by
  have hnone : uri ≠ [] → (p.forgetAgent uri order).fst.byURI.get uri = none := by
    intro huri
    unfold forgetAgent
    rw [if_neg huri]
    cases hget : p.byURI.get uri with
    | none => exact hget
    | some set => exact GoMap.get_del_self _ _
  generalize (p.forgetAgent uri order).fst = q at hnone ⊢
  unfold forgetAgent
  by_cases huri : uri = []
  · rw [if_pos huri]
  · rw [if_neg huri, hnone huri]

/-! ## The idle allocations -/

section Collection

variable {allocs allocs' : List (UInt32 × AllocEntry)}
  {pends pends' : List (UInt32 × PendingEntry)} {punches punches' : List (UInt32 × QueuedPunch)}

/-- **`gcOnce` releases the idle allocations**, and drops the expired rows of the
others. -/
theorem TableInv.gcOnce_exact (h : p.TableInv) (ho : p.GCOrders now allocs pends punches) :
    ReleasedExactly p (p.gcOnce now allocs pends punches) (fun k => p.Evicts k now)
      (Row.unexpired now) := by
  have hr : Released p (p.gcOnce now allocs pends punches) _ := h.released_gcOnce ho.1 pends punches
  refine hr.exactly h (fun k hk => ?_) (fun k hk => ⟨?_, ?_⟩) (fun k hk => ?_)
  · obtain ⟨⟨k', entry⟩, hmem, rfl⟩ := List.mem_map.mp hk
    obtain ⟨hmem, hidle⟩ := List.mem_filter.mp hmem
    exact ⟨entry, (ho.1.mem_iff k' entry).mp hmem, of_decide_eq_true hidle⟩
  · obtain ⟨entry, he, hidle⟩ := hk
    rw [gcOnce_byAlloc ho.1 he, if_pos hidle]
  · rw [row_gcOnce ho]
    exact if_pos hk
  · rw [row_gcOnce ho]
    exact if_neg hk

/-- The orders of the three loops of `gcOnce` play no part. -/
theorem gcOnce_eq_of_orders (ho : p.GCOrders now allocs pends punches)
    (ho' : p.GCOrders now allocs' pends' punches') :
    p.gcOnce now allocs' pends' punches' = p.gcOnce now allocs pends punches := by
  have hevict := evictIdle_perm (ho'.1.perm ho.1) p now
  have hpends' := ho'.2.1
  have hpunches' := ho'.2.2
  rw [hevict] at hpends' hpunches'
  have hpend : sweep PendingEntry.expires now (p.evictIdle now allocs).pending pends'
      = sweep PendingEntry.expires now (p.evictIdle now allocs).pending pends :=
    GoMap.ext_get fun k => by rw [get_sweep _ _ hpends', get_sweep _ _ ho.2.1]
  have hqueued : sweep QueuedPunch.expires now (p.evictIdle now allocs).queued punches'
      = sweep QueuedPunch.expires now (p.evictIdle now allocs).queued punches :=
    GoMap.ext_get fun k => by rw [get_sweep _ _ hpunches', get_sweep _ _ ho.2.2]
  unfold gcOnce
  dsimp only
  rw [hevict, hpend, hqueued]

/-- With nothing idle, nothing is evicted. -/
theorem evictIdle_of_fresh (hfresh : ∀ k, ¬ p.Evicts k now)
    (hallocs : p.byAlloc.RangeOrder allocs) : p.evictIdle now allocs = p := by
  have hloop : ∀ (l : List (UInt32 × AllocEntry)),
      (∀ e ∈ l, ¬ e.snd.lastSeen < now - p.idleTTL) →
        l.foldl (evictRound (now - p.idleTTL)) p = p := by
    intro l
    induction l with
    | nil => exact fun _ => rfl
    | cons e l ih =>
      intro hl
      rw [List.forall_mem_cons] at hl
      rw [List.foldl_cons]
      unfold evictRound
      rw [if_neg hl.1]
      exact ih hl.2
  refine hloop allocs (fun e he hidle => hfresh e.fst ⟨e.snd, ?_, hidle⟩)
  exact (hallocs.mem_iff e.fst e.snd).mp he

/-- With nothing idle and no row expired, a collection changes nothing. -/
theorem gcOnce_of_fresh (hfresh : ∀ k, ¬ p.Evicts k now)
    (hrows : ∀ k, (p.row k).unexpired now = p.row k) (ho : p.GCOrders now allocs pends punches) :
    p.gcOnce now allocs pends punches = p := by
  have hevict := evictIdle_of_fresh hfresh ho.1
  have hpends := ho.2.1
  have hpunches := ho.2.2
  rw [hevict] at hpends hpunches
  have hpend : sweep PendingEntry.expires now p.pending pends = p.pending :=
    GoMap.ext_get fun k => (get_sweep _ _ hpends k).trans (congrArg Row.pending (hrows k))
  have hqueued : sweep QueuedPunch.expires now p.queued punches = p.queued :=
    GoMap.ext_get fun k => (get_sweep _ _ hpunches k).trans (congrArg Row.queued (hrows k))
  unfold gcOnce
  dsimp only
  rw [hevict, hpend, hqueued]

theorem evictIdle_idleTTL (p : Plane) (now : Time) (l : List (UInt32 × AllocEntry)) :
    (p.evictIdle now l).idleTTL = p.idleTTL := by
  have hround : ∀ (cutoff : Time) (p : Plane) (e : UInt32 × AllocEntry),
      (evictRound cutoff p e).idleTTL = p.idleTTL := by
    intro cutoff p e
    unfold evictRound
    split_ifs <;> rfl
  exact List.foldlRecOn (motive := fun q => q.idleTTL = p.idleTTL) l _ rfl
    (fun q hq e _ => (hround _ q e).trans hq)

theorem Row.unexpired_idem (now : Time) (r : Row) :
    (r.unexpired now).unexpired now = r.unexpired now := by
  unfold unexpired
  ext1 <;> simp [Option.filter_filter]

/-- What a collection has left is neither idle nor expired. -/
theorem TableInv.gcOnce_left (h : p.TableInv) (ho : p.GCOrders now allocs pends punches) :
    (∀ k, ¬ (p.gcOnce now allocs pends punches).Evicts k now)
      ∧ ∀ k, ((p.gcOnce now allocs pends punches).row k).unexpired now
        = (p.gcOnce now allocs pends punches).row k := by
  have hexact := h.gcOnce_exact ho
  refine ⟨fun k hk => ?_, fun k => ?_⟩
  · obtain ⟨entry, hget, hidle⟩ := hk
    by_cases hD : p.Evicts k now
    · cases (hexact.gone k hD).byAlloc.symm.trans hget
    · refine hD ⟨entry, (hexact.kept k hD).symm.trans hget, ?_⟩
      rw [← evictIdle_idleTTL p now allocs]
      exact hidle
  · by_cases hD : p.Evicts k now
    · rw [(hexact.gone k hD).rows]
      rfl
    · rw [hexact.rows k hD, Row.unexpired_idem]

end Collection

end Plane

/-! ## Over whole runs -/

/-- **A release is exact**, in every state of a run whose counter has not gone
round: what it takes out is in no table, the rest is as before, the orders of the
loops play no part, and a second release in a row changes nothing. `ForgetAgent`
returns the number of the agent's allocations. -/
theorem release_exact {idleTTL pendingTTL start : Time}
    {h : List (Transition PlaneState PlaneEvent)} {s : PlaneState}
    (hx : (planeMachine idleTTL pendingTTL start).Exec h s) (hn : allocCalls h < 2 ^ 32 - 1) :
    (∀ id, Plane.ReleasedExactly s.plane (s.plane.forget id) (fun k => k = id) (fun r => r)
      ∧ (s.plane.forget id).forget id = s.plane.forget id)
    ∧ (∀ uri order, s.plane.SetOrder uri order →
      Plane.ReleasedExactly s.plane (s.plane.forgetAgent uri order).fst
          (fun k => s.plane.ownerOf k = some uri) (fun r => r)
        ∧ (s.plane.forgetAgent uri order).snd = {k | s.plane.ownerOf k = some uri}.ncard
        ∧ (∀ order', s.plane.SetOrder uri order' →
          s.plane.forgetAgent uri order' = s.plane.forgetAgent uri order)
        ∧ ∀ order', (s.plane.forgetAgent uri order).fst.SetOrder uri order' →
          (s.plane.forgetAgent uri order).fst.forgetAgent uri order'
            = ((s.plane.forgetAgent uri order).fst, 0))
    ∧ ∀ now allocs pends punches, s.plane.GCOrders now allocs pends punches →
      Plane.ReleasedExactly s.plane (s.plane.gcOnce now allocs pends punches)
          (fun k => s.plane.Evicts k now) (Plane.Row.unexpired now)
        ∧ (∀ allocs' pends' punches', s.plane.GCOrders now allocs' pends' punches' →
          s.plane.gcOnce now allocs' pends' punches' = s.plane.gcOnce now allocs pends punches)
        ∧ ∀ allocs' pends' punches',
          (s.plane.gcOnce now allocs pends punches).GCOrders now allocs' pends' punches' →
            (s.plane.gcOnce now allocs pends punches).gcOnce now allocs' pends' punches'
              = s.plane.gcOnce now allocs pends punches := by
  have hinv := tableInv_of_exec hx hn
  have hnil : ∀ k, s.plane.ownerOf k ≠ some [] := fun k hk =>
    PlaneState.owner_ne_nil ⟨h, hx⟩ hk rfl
  refine ⟨fun id => ?_, fun uri order ho => ?_, fun now allocs pends punches ho => ?_⟩
  · have hexact := hinv.forget_exact id
    exact ⟨hexact, Plane.forget_of_unmentioned (hexact.gone id rfl)⟩
  · exact ⟨hinv.forgetAgent_exact hnil ho, hinv.forgetAgent_count hnil ho,
      fun order' ho' => Plane.forgetAgent_perm (ho'.perm ho) s.plane uri,
      fun order' _ => Plane.forgetAgent_forgotten s.plane uri order order'⟩
  · have hleft := hinv.gcOnce_left ho
    exact ⟨hinv.gcOnce_exact ho, fun _ _ _ ho' => Plane.gcOnce_eq_of_orders ho ho',
      fun _ _ _ ho' => Plane.gcOnce_of_fresh hleft.1 hleft.2 ho'⟩

/-- A collection that evicts the first of two allocations and keeps the second. -/
theorem idle_allocation_collected :
    ∃ h s, (planeMachine 10 10 0).Exec h s ∧ allocCalls h < 2 ^ 32 - 1
      ∧ s.plane.Evicts 1 12 ∧ ¬ s.plane.Evicts 2 12
      ∧ ∃ allocs pends punches, s.plane.GCOrders 12 allocs pends punches
        ∧ (s.plane.gcOnce 12 allocs pends punches).Unmentioned 1
        ∧ (s.plane.gcOnce 12 allocs pends punches).ownerOf 2 = some (go "c2") := by
  obtain ⟨s, hrun, hidle, hfresh, hown⟩ : ∃ s, (planeMachine 10 10 0).run
      [.allocate (go "c1") 1, .allocate (go "c2") 5, .armPending 1 (go "c1") (repeatNonce 7) 6]
      (planeMachine 10 10 0).init = some s
      ∧ s.plane.Evicts 1 12 ∧ ¬ s.plane.Evicts 2 12 ∧ s.plane.ownerOf 2 = some (go "c2") :=
    ⟨_, rfl, by decide, by decide, by decide⟩
  obtain ⟨h, hx, hev⟩ := Machine.exec_of_run (planeMachine 10 10 0) _ hrun
  have hn : allocCalls h < 2 ^ 32 - 1 := by
    rw [allocCalls_eq, hev]
    decide
  obtain ⟨allocs, hallocs⟩ := s.plane.byAlloc.exists_rangeOrder
  obtain ⟨pends, hpends⟩ := (s.plane.evictIdle 12 allocs).pending.exists_rangeOrder
  obtain ⟨punches, hpunches⟩ := (s.plane.evictIdle 12 allocs).queued.exists_rangeOrder
  have ho : s.plane.GCOrders 12 allocs pends punches := ⟨hallocs, hpends, hpunches⟩
  have hexact := ((release_exact hx hn).2.2 12 allocs pends punches ho).1
  refine ⟨h, s, hx, hn, hidle, hfresh, allocs, pends, punches, ho, hexact.gone 1 hidle, ?_⟩
  rw [Plane.ownerOf, hexact.kept 2 hfresh]
  exact hown
