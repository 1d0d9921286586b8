import OutRelay.ForwardRound

/-!
# The allocations of agents that have left

The teardown of a connection ends with `ForgetAgent`, which is there to drop
every forward allocation of the agent *the moment its control connection goes
away*. Between two teardowns, though, allocations are issued to URIs that were
read some time before: by `handleConsumerStream`, which releases what it was
issued when it returns, and by `driveForwardResume`, which does not. The URI of
a resumed half is up to a match window old when its driver calls `Allocate`, and
no one looks whether the agent is still connected.

So the question is one about drivers. `HeldInv` says, in every reachable state,
why an allocation is there: it was last issued to a driver, or it is held by the
handler of an opened stream that has still to release it. `ResumedConnected` says
that the owners of the first kind are connected, and
`disconnected_own_nothing` that it holds throughout a run exactly when no driver
allocates for an agent whose last connection is gone – in which case, once no
handler is in progress, every allocation has a connected owner.

The plane's part is one direction of the owner index: a live allocation is
listed under its owner (`Plane.Listed`). Unlike the other direction it survives
the wrap of the allocation counter, so nothing here bounds the number of calls.
-/

namespace Plane

variable {p q : Plane} {id : UInt32} {uri : GoString} {now : Time}

/-! ## The owner index, in one direction -/

/-- **Every live allocation is listed under its owner.** -/
def Listed (p : Plane) : Prop := ∀ id u, p.ownerOf id = some u → Owned p.byURI u id

theorem Listed.congr (h : p.Listed) (hown : q.ownerOf = p.ownerOf) (huri : q.byURI = p.byURI) :
    q.Listed := by
  intro id u hu
  rw [hown] at hu
  rw [huri]
  exact h id u hu

theorem Listed.allocate (h : p.Listed) (ha : p.allocate uri now = some (q, id)) : q.Listed := by
  unfold Plane.allocate at ha
  split_ifs at ha
  cases ha
  intro k u hu
  have hget : ((p.byAlloc.set (nextAllocID p.nextID) ⟨uri, AddrPort.zero, now⟩).get k).map
      AllocEntry.uri = some u := hu
  refine (owned_insert _ _ _ _ _).mpr ?_
  rw [GoMap.get_set] at hget
  split_ifs at hget with hk
  · cases hget
    exact Or.inl ⟨rfl, hk⟩
  · exact Or.inr (h k u hget)

theorem Listed.release (h : p.Listed) (id : UInt32) (entry : AllocEntry) :
    (p.release id entry).Listed := by
  intro k u hu
  have hget : ((p.byAlloc.del id).get k).map AllocEntry.uri = some u := hu
  rw [GoMap.get_del] at hget
  split_ifs at hget with hk
  · cases hget
  · exact (owned_dropURI _ _ _ _ _).mpr ⟨h k u hget, fun hdrop => hk hdrop.2⟩

theorem Listed.forget (h : p.Listed) (id : UInt32) : (p.forget id).Listed := by
  unfold Plane.forget
  split
  · exact h
  · exact h.release id _

theorem Listed.gcOnce (h : p.Listed) (now : Time) (allocs : List (UInt32 × AllocEntry))
    (pends : List (UInt32 × PendingEntry)) (punches : List (UInt32 × QueuedPunch)) :
    (p.gcOnce now allocs pends punches).Listed := by
  refine List.foldlRecOn (motive := fun q : Plane => q.Listed) allocs _ h fun q hq e _ => ?_
  unfold evictRound
  split_ifs
  · exact hq.release e.fst e.snd
  · exact hq

/-- `ForgetAgent` drops the set of the agent, and no other. -/
theorem forgetAgent_byURI_of_ne {u : GoString} (hu : u ≠ uri) (order : List UInt32) :
    (p.forgetAgent uri order).fst.byURI.get u = p.byURI.get u := by
  have hloop : (order.foldl forgetAgentRound (p, 0)).fst.byURI = p.byURI := by
    refine List.foldlRecOn (motive := fun acc : Plane × ℕ => acc.fst.byURI = p.byURI) order _ rfl
      fun acc hacc id _ => ?_
    rw [← hacc]
    unfold forgetAgentRound
    split <;> rfl
  unfold forgetAgent
  split_ifs
  · rfl
  · split
    · rfl
    · exact (GoMap.get_del_of_ne _ hu).trans (congrArg (GoMap.get · u) hloop)

/-- **`ForgetAgent` leaves the agent nothing.** -/
theorem Listed.forgetAgent_ownerOf_ne (h : p.Listed) {order : List UInt32}
    (ho : p.SetOrder uri order) (huri : uri ≠ []) (id : UInt32) :
    (p.forgetAgent uri order).fst.ownerOf id ≠ some uri := by
  intro hown
  unfold ownerOf at hown
  rw [forgetAgent_byAlloc ho] at hown
  split_ifs at hown with hk
  · cases hown
  · obtain ⟨set, hset, hid⟩ := h id uri hown
    refine hk ⟨huri, ?_⟩
    rw [← List.mem_toFinset, ho.2, hset]
    exact hid

theorem Listed.forgetAgent (h : p.Listed) {order : List UInt32} (ho : p.SetOrder uri order) :
    (p.forgetAgent uri order).fst.Listed := by
  intro k u hu
  by_cases huri : uri = []
  · -- the empty URI is turned away
    unfold Plane.forgetAgent at hu ⊢
    rw [if_pos huri] at hu ⊢
    exact h k u hu
  have hne : u ≠ uri := by
    rintro rfl
    exact h.forgetAgent_ownerOf_ne ho huri k hu
  obtain ⟨e, he, rfl⟩ := Option.map_eq_some_iff.mp hu
  unfold Owned
  rw [forgetAgent_byURI_of_ne hne]
  exact h k e.uri (ownerOf_of_get ((shrinks_forgetAgent p uri order).byAlloc k e he))

end Plane

namespace PlaneState

variable {s s' : PlaneState} {e : PlaneEvent}

theorem listed_step (h : s.plane.Listed) (hstep : s.step e = some s') : s'.plane.Listed := by
  cases e with
  | forget id =>
    cases hstep
    exact h.forget id
  | forgetAgent uri order =>
    simp only [step] at hstep
    split_ifs at hstep with ho
    cases hstep
    exact h.forgetAgent ho
  | gcOnce now allocs pends punches =>
    simp only [step] at hstep
    split_ifs at hstep
    cases hstep
    exact h.gcOnce now allocs pends punches
  | allocate uri now =>
    simp only [step] at hstep
    split_ifs at hstep
    obtain ⟨⟨q, id⟩, hq, rfl⟩ := Option.map_eq_some_iff.mp hstep
    exact h.allocate hq
  | armPending id uri nonce now =>
    simp only [step] at hstep
    split_ifs at hstep
    cases hstep
    exact h.congr (Plane.armPending_ownerOf s.plane id uri nonce now).1
      (Plane.armPending_byURI s.plane id uri nonce now)
  | datagram buf src now now' =>
    simp only [step, Plane.recv] at hstep
    split_ifs at hstep
    cases hstep
    cases Packet.decode buf with
    | punch id nonce =>
      exact h.congr (Plane.register_ownerOf s.plane id src nonce now now').1
        (Plane.register_byURI s.plane id src nonce now now')
    | data id payload =>
      exact h.congr (Plane.touch_ownerOf s.plane src now).1 (Plane.touch_byURI s.plane src now)
    | short => exact h
    | badRegistration => exact h

end PlaneState

namespace RelayState

variable {cfg : RelayConfig} {s s' : RelayState} {e : RelayEvent} {i : ℕ} {uri : GoString}
  {now : Time}

/-! ## Connected agents -/

/-- **The agent is connected**: it has a connection whose teardown has not
completed. -/
def Connected (s : RelayState) (uri : GoString) : Prop :=
  ∃ (i : ℕ) (link : AgentLink), s.links[i]? = some link ∧ link.uri.val = uri ∧ link.pc ≠ .closed

theorem Connected.congr (h : s.Connected uri) (hlinks : s'.links = s.links) : s'.Connected uri := by
  unfold Connected
  rw [hlinks]
  exact h

/-- A step of a teardown other than the last. -/
theorem Connected.setPC (h : s.Connected uri) {pc : ServePC} (hpc : pc ≠ .closed) :
    (s.setPC i pc).Connected uri := by
  obtain ⟨j, link, hj, hu, hopen⟩ := h
  by_cases hij : i = j
  · exact ⟨j, { link with pc := pc }, by simp [RelayState.setPC, hij, hj],
      hu, hpc⟩
  · exact ⟨j, link, by simp [RelayState.setPC, hij, hj], hu, hopen⟩

/-- **An agent is connected until the last step of a teardown of its own.** -/
theorem Connected.step (h : s.Connected uri) (hstep : s.step cfg e = some s') :
    s'.Connected uri
      ∨ ∃ i order link, e = .forgetAgent i order ∧ s.links[i]? = some link
        ∧ link.uri.val = uri := by
  cases e with
  | register u =>
    simp only [RelayState.step] at hstep
    split at hstep
    · cases hstep
    · split_ifs at hstep
      cases hstep
      obtain ⟨j, link, hj, hlink⟩ := h
      refine Or.inl ⟨j, link, ?_, hlink⟩
      rw [List.getElem?_append_left (List.getElem?_eq_some_iff.mp hj).1, hj]
  | deregister i =>
    simp only [RelayState.step] at hstep
    obtain ⟨link, -, -, rfl⟩ := advance_eq_some hstep
    exact Or.inl ((h.setPC (by decide)).congr (deregisterAgent_eq cfg _ _).2.1)
  | forgetAgent i order =>
    obtain ⟨link, f, hi, -, rfl, -⟩ := step_forgetAgent hstep
    by_cases hu : link.uri.val = uri
    · exact Or.inr ⟨i, order, link, rfl, hi, hu⟩
    · obtain ⟨j, link', hj, hu', hopen⟩ := h
      have hij : i ≠ j := by
        rintro rfl
        cases hi.symm.trans hj
        exact hu hu'
      exact Or.inl ⟨j, link', by simp [RelayState.setPC, hij, hj], hu', hopen⟩
  | plane pe =>
    simp only [RelayState.step] at hstep
    split_ifs at hstep
    exact Or.inl (h.congr (planeStep_eq hstep).2)
  | _ =>
    simp only [RelayState.step] at hstep
    obtain ⟨link, -, -, rfl⟩ := advance_eq_some hstep
    exact Or.inl ((h.setPC (by decide)).congr rfl)

theorem listed_step (h : s.forward.plane.Listed) (hstep : s.step cfg e = some s') :
    s'.forward.plane.Listed := by
  rcases step_forward hstep with heq | ⟨pe, hpe, -⟩
  · rw [heq]
    exact h
  · exact PlaneState.listed_step h hpe

/-- **What is left after a step that issues nothing** was there before, and its
owner stays connected: a teardown takes the allocations along. -/
theorem ownerOf_of_step {id : UInt32} (hL : s.forward.plane.Listed)
    (hfwd : s.forward.plane.ownerOf id = some uri → cfg.forward = true)
    (hna : ∀ u now, e ≠ .plane (.allocate u now)) (hstep : s.step cfg e = some s')
    (hu : s'.forward.plane.ownerOf id = some uri) :
    s.forward.plane.ownerOf id = some uri ∧ (s.Connected uri → s'.Connected uri) := by
  have hbefore : s.forward.plane.ownerOf id = some uri := by
    rcases step_forward hstep with heq | ⟨pe, hpe, halloc⟩
    · rwa [heq] at hu
    · refine PlaneState.ownerOf_of_step (Bool.eq_false_iff.mpr fun hall => ?_) hpe hu
      cases pe with
      | allocate u now => exact hna u now (halloc hall)
      | _ => cases hall
  refine ⟨hbefore, fun hc => (hc.step hstep).resolve_right ?_⟩
  rintro ⟨i, order, link, rfl, hi, rfl⟩
  obtain ⟨link', f, hi', -, rfl, hf⟩ := step_forgetAgent hstep
  cases hi.symm.trans hi'
  rcases hf with ⟨-, ho, hplane⟩ | ⟨hoff, -⟩
  · refine hL.forgetAgent_ownerOf_ne ho link.uri.property id ?_
    rw [← hplane]
    exact hu
  · rw [hfwd hbefore] at hoff
    cases hoff

/-- **What `Allocate` does to the owners.** -/
theorem step_allocate (hstep : s.step cfg (.plane (.allocate uri now)) = some s') :
    cfg.forward = true ∧ s'.links = s.links ∧ ∀ k, s'.forward.plane.ownerOf k
      = if k = Plane.nextAllocID s.forward.plane.nextID then some uri
        else s.forward.plane.ownerOf k := by
  simp only [step] at hstep
  split_ifs at hstep with hfwd
  refine ⟨hfwd, (planeStep_eq hstep).2, fun k => ?_⟩
  simp only [planeStep, PlaneState.step] at hstep
  obtain ⟨f, hf, rfl⟩ := Option.map_eq_some_iff.mp hstep
  split_ifs at hf
  obtain ⟨⟨q, id⟩, hq, rfl⟩ := Option.map_eq_some_iff.mp hf
  obtain ⟨rfl, -, -, hby, -⟩ := Plane.allocate_byAlloc hq
  dsimp only
  unfold Plane.ownerOf
  rw [hby, GoMap.get_set]
  split_ifs <;> rfl

theorem step_forget {id : UInt32} (hstep : s.step cfg (.plane (.forget id)) = some s') :
    s'.forward.plane.ownerOf id = none := by
  simp only [step, planeStep, PlaneState.step] at hstep
  split_ifs at hstep
  obtain ⟨f, hf, rfl⟩ := Option.map_eq_some_iff.mp hstep
  cases hf
  refine Plane.ownerOf_eq_none.mpr ?_
  dsimp only
  rw [Plane.forget_byAlloc, if_pos rfl]

end RelayState

/-! ## Who holds an allocation -/

/-- The opened stream that an allocation was issued for. -/
def Grantee.open? : Grantee → Option ℕ
  | .consumer k | .provider k => some k
  | .driverSelf _ | .driverPeer _ => none

/-- The handler of an opened stream has the allocation, and has not released
it. -/
def OpenPC.Holds : OpenPC → UInt32 → Prop
  | .allocConsumer, _ | .returned, _ => False
  | .allocProvider c, id | .forgetConsumer c, id => id = c
  | .granted c d, id => id = c ∨ id = d

namespace ForwardState

variable {cfg : ForwardConfig} {s s' : ForwardState} {e : ForwardEvent} {id : UInt32}
  {u : GoString}

/-- For whom `id` was issued, the last time it was. -/
def lastGrantee (s : ForwardState) (id : UInt32) : Option Grantee := s.issued.reverse.lookup id

theorem lastGrantee_issue {x : UInt32} {g : Grantee} (h : s'.issued = s.issued ++ [(x, g)])
    (id : UInt32) : s'.lastGrantee id = if id = x then some g else s.lastGrantee id := by
  unfold lastGrantee
  rw [h, List.reverse_append, List.reverse_singleton, List.singleton_append, List.lookup_cons]
  by_cases hx : id = x
  · rw [if_pos hx, beq_iff_eq.mpr hx]
  · rw [if_neg hx, beq_false_of_ne hx]

theorem lastGrantee_of_issued_eq (h : s'.issued = s.issued) : s'.lastGrantee = s.lastGrantee := by
  unfold lastGrantee
  rw [h]

/-- The relay has a plane, `id` was issued, and if it was to an opened stream
then the handler of that stream holds it. -/
def Held (cfg : ForwardConfig) (s : ForwardState) (id : UInt32) : Prop :=
  cfg.forward = true ∧ ∃ g, s.lastGrantee id = some g
    ∧ ∀ k, g.open? = some k → ∃ o, s.opens[k]? = some o ∧ o.pc.Holds id

/-- **Why an allocation is there.** -/
structure HeldInv (cfg : ForwardConfig) (s : ForwardState) : Prop where
  listed : s.relay.forward.plane.Listed
  held : ∀ id u, s.relay.forward.plane.ownerOf id = some u → s.Held cfg id

/-- **The agents that drivers allocated for are connected.** -/
def ResumedConnected (s : ForwardState) : Prop :=
  ∀ id u g i, s.relay.forward.plane.ownerOf id = some u → s.lastGrantee id = some g →
    g.round? = some i → s.relay.Connected u

/-- **Disconnected agents own nothing**, once every forward-mode
`handleConsumerStream` has returned. -/
def OwnersConnected (s : ForwardState) : Prop :=
  (∀ (k : ℕ) (o : ForwardOpen), s.opens[k]? = some o → o.pc = .returned) →
    ∀ id entry, s.relay.forward.plane.byAlloc.get id = some entry → s.relay.Connected entry.uri

/-- **No driver allocates for an agent that has left.** -/
def DriversConnected (s : ForwardState) (e : ForwardEvent) : Prop :=
  ∀ i now uri, e = .driver i now → s.DriverAllocates i uri → s.relay.Connected uri.val

theorem ResumedConnected.ownersConnected (h : s.ResumedConnected) (I : s.HeldInv cfg) :
    s.OwnersConnected := by
  intro hret id entry he
  have hown := Plane.ownerOf_of_get he
  obtain ⟨-, g, hg, hopen⟩ := I.held id entry.uri hown
  -- a handler that has returned holds nothing, so a driver was given the allocation
  have hclosed : ∀ k, g.open? ≠ some k := by
    intro k hk
    obtain ⟨o, ho, hholds⟩ := hopen k hk
    rw [hret k o ho] at hholds
    exact hholds
  cases g with
  | driverSelf i => exact h id entry.uri _ i hown hg rfl
  | driverPeer i => exact h id entry.uri _ i hown hg rfl
  | consumer k => exact absurd rfl (hclosed k)
  | provider k => exact absurd rfl (hclosed k)

/-! ## A step of the machine -/

theorem opens_modify {k : ℕ} {o : ForwardOpen} {pc : OpenPC} (hk : s.opens[k]? = some o)
    (hopens : s'.opens = s.opens.modify k (fun o => { o with pc := pc })) (j : ℕ) :
    s'.opens[j]? = if j = k then some { o with pc := pc } else s.opens[j]? := by
  rw [hopens, List.getElem?_modify]
  by_cases hj : j = k
  · simp [hj, hk]
  · simp [hj, Ne.symm hj]

/-- The handler of an opened stream keeps what it holds, except for what it
releases. -/
theorem Held.modify {k : ℕ} {o : ForwardOpen} {pc : OpenPC} (h : s.Held cfg id)
    (hlast : s'.lastGrantee id = s.lastGrantee id) (hk : s.opens[k]? = some o)
    (hopens : s'.opens = s.opens.modify k (fun o => { o with pc := pc }))
    (hkeep : o.pc.Holds id → pc.Holds id) : s'.Held cfg id := by
  obtain ⟨hfwd, g, hg, hopen⟩ := h
  refine ⟨hfwd, g, hlast.trans hg, fun j hj => ?_⟩
  obtain ⟨o', ho', hholds⟩ := hopen j hj
  rw [opens_modify hk hopens]
  by_cases hjk : j = k
  · subst hjk
    cases hk.symm.trans ho'
    exact ⟨_, if_pos rfl, hkeep hholds⟩
  · exact ⟨o', (if_neg hjk).trans ho', hholds⟩

theorem heldInv_step (I : s.HeldInv cfg) (hstep : s.step cfg e = some s') : s'.HeldInv cfg := by
  cases relayMove_of_step hstep with
  | still hrelay hissued hopens =>
    have hlast := lastGrantee_of_issued_eq hissued
    refine ⟨by rw [hrelay]; exact I.listed, fun id u hu => ?_⟩
    rw [hrelay] at hu
    unfold Held
    rw [hlast, hopens]
    exact I.held id u hu
  | own hown hrelay hissued hopens =>
    refine ⟨RelayState.listed_step I.listed hrelay, fun id u hu => ?_⟩
    have hu' := (RelayState.ownerOf_of_step I.listed (fun h => (I.held id u h).1)
      (fun v now he => by rw [he] at hown; cases hown) hrelay hu).1
    unfold Held
    rw [lastGrantee_of_issued_eq hissued, hopens]
    exact I.held id u hu'
  | opened hpc hrelay hissued hopens =>
    refine ⟨by rw [hrelay]; exact I.listed, fun id u hu => ?_⟩
    rw [hrelay] at hu
    obtain ⟨hfwd, g, hg, hopen⟩ := I.held id u hu
    refine ⟨hfwd, g, (congrFun (lastGrantee_of_issued_eq hissued) id).trans hg, fun k hk => ?_⟩
    obtain ⟨o, ho, hholds⟩ := hopen k hk
    refine ⟨o, ?_, hholds⟩
    rw [hopens, List.getElem?_append_left (List.getElem?_eq_some_iff.mp ho).1, ho]
  | driver halloc hgrantee hrelay hissued hopens =>
    obtain ⟨hfwd, -, hown⟩ := RelayState.step_allocate hrelay
    refine ⟨RelayState.listed_step I.listed hrelay, fun id u hu => ?_⟩
    unfold Held
    rw [lastGrantee_issue hissued, hopens]
    rw [hown] at hu
    split_ifs at hu ⊢ with hx
    · refine ⟨hfwd, _, rfl, fun k hk => ?_⟩
      rcases hgrantee with rfl | rfl <;> cases hk
    · exact I.held id u hu
  | openAlloc hk halloc hrelay hissued hopens =>
    obtain ⟨hfwd, -, hown⟩ := RelayState.step_allocate hrelay
    have hat := (opens_modify hk hopens _).trans (if_pos rfl)
    refine ⟨RelayState.listed_step I.listed hrelay, fun id u hu => ?_⟩
    rw [hown] at hu
    split_ifs at hu with hx
    · -- the new allocation is held by the handler it was issued for
      refine ⟨hfwd, _, (lastGrantee_issue hissued id).trans (if_pos hx), fun j hj => ?_⟩
      rcases halloc with ⟨-, -, rfl, rfl⟩ | ⟨c, -, -, rfl, rfl⟩
      · cases hj
        exact ⟨_, hat, hx⟩
      · cases hj
        exact ⟨_, hat, Or.inr hx⟩
    · refine (I.held id u hu).modify ((lastGrantee_issue hissued id).trans (if_neg hx)) hk hopens ?_
      rcases halloc with ⟨hpc, -⟩ | ⟨c, hpc, -, -, rfl⟩
      · rw [hpc]
        exact False.elim
      · rw [hpc]
        exact Or.inl
  | openForget hk hforget hrelay hissued hopens =>
    refine ⟨RelayState.listed_step I.listed hrelay, fun id u hu => ?_⟩
    have hu' := (RelayState.ownerOf_of_step I.listed (fun h => (I.held id u h).1)
      (fun _ _ he => by cases he) hrelay hu).1
    refine (I.held id u hu').modify (congrFun (lastGrantee_of_issued_eq hissued) id) hk hopens ?_
    -- what is released is gone
    have hne : ∀ {x : UInt32}, s.relay.step cfg.toRelayConfig (.plane (.forget x)) = some s'.relay →
        id ≠ x := by
      rintro x hrelay rfl
      rw [RelayState.step_forget hrelay] at hu
      cases hu
    rcases hforget with ⟨c, hpc, rfl⟩ | ⟨hpc, rfl⟩
    · rw [hpc]
      exact fun hholds => hholds.resolve_right (hne hrelay)
    · rw [hpc]
      exact fun hholds => hne hrelay hholds

/-- Every allocation is accounted for in every reachable state. -/
theorem heldInv_of_reachable {idleTTL pendingTTL start : Time}
    (hs : (forwardMachine cfg idleTTL pendingTTL start).Reachable s) : s.HeldInv cfg := by
  refine hs.invariant ⟨fun id u hu => ?_, fun id u hu => ?_⟩ (fun _ I hstep => heldInv_step I hstep)
  · cases hu
  · cases hu

/-- **A step keeps the owners connected** as long as its driver, if it is one,
allocates for a connected agent. -/
theorem resumedConnected_step (I : s.HeldInv cfg) (h : s.ResumedConnected)
    (hG : s.DriversConnected e) (hstep : s.step cfg e = some s') : s'.ResumedConnected := by
  -- a step that issues nothing keeps the last grantees and the connections
  have hkeep : ∀ {re : RelayEvent}, (∀ v now, re ≠ .plane (.allocate v now)) →
      s.relay.step cfg.toRelayConfig re = some s'.relay → s'.issued = s.issued →
      s'.ResumedConnected := by
    intro re hna hrelay hissued id u g i hu hg hi
    obtain ⟨hu', hconn⟩ := RelayState.ownerOf_of_step I.listed (fun h => (I.held id u h).1)
      hna hrelay hu
    rw [lastGrantee_of_issued_eq hissued] at hg
    exact hconn (h id u g i hu' hg hi)
  cases relayMove_of_step hstep with
  | still hrelay hissued =>
    intro id u g i hu hg hi
    rw [hrelay] at hu ⊢
    rw [lastGrantee_of_issued_eq hissued] at hg
    exact h id u g i hu hg hi
  | own hown hrelay hissued =>
    exact hkeep (fun v now he => by rw [he] at hown; cases hown) hrelay hissued
  | opened hpc hrelay hissued =>
    intro id u g i hu hg hi
    rw [hrelay] at hu ⊢
    rw [lastGrantee_of_issued_eq hissued] at hg
    exact h id u g i hu hg hi
  | driver halloc hgrantee hrelay hissued =>
    obtain ⟨-, hlinks, hown⟩ := RelayState.step_allocate hrelay
    intro id u g i hu hg hi
    rw [hown] at hu
    rw [lastGrantee_issue hissued] at hg
    refine RelayState.Connected.congr ?_ hlinks
    split_ifs at hu hg with hx
    · cases hu
      exact hG _ _ _ rfl halloc
    · exact h id u g i hu hg hi
  | openAlloc hk halloc hrelay hissued =>
    obtain ⟨-, hlinks, hown⟩ := RelayState.step_allocate hrelay
    intro id u g i hu hg hi
    rw [hown] at hu
    rw [lastGrantee_issue hissued] at hg
    refine RelayState.Connected.congr ?_ hlinks
    split_ifs at hu hg with hx
    · cases hg
      rcases halloc with ⟨-, -, rfl, -⟩ | ⟨c, -, -, rfl, -⟩ <;> cases hi
    · exact h id u g i hu hg hi
  | openForget hk hforget hrelay hissued =>
    exact hkeep (fun _ _ he => by cases he) hrelay hissued

/-- **A driver about to allocate allocates.** -/
theorem DriverAllocates.step {i : ℕ} {now : Time} {uri : AgentURI} (h : s.DriverAllocates i uri)
    (hstep : s.step cfg (.driver i now) = some s') :
    s.relay.step cfg.toRelayConfig (.plane (.allocate uri.val now)) = some s'.relay
      ∧ ∃ g, g.round? = some i ∧ s'.issued
        = s.issued ++ [(Plane.nextAllocID s.relay.forward.plane.nextID, g)] := by
  obtain ⟨a, hi, hpc⟩ := h
  unfold ForwardState.step at hstep
  split_ifs at hstep
  dsimp only at hstep
  rw [hi, Option.bind_some] at hstep
  unfold driverStep at hstep
  rcases hpc with ⟨p, hpc, rfl⟩ | ⟨p, x, b, hpc, hb, rfl⟩
  · rw [hpc] at hstep
    dsimp only at hstep
    obtain ⟨r, hr, rfl⟩ := Option.map_eq_some_iff.mp hstep
    obtain ⟨relay, hrelay, hid, heq⟩ := allocate_eq hr
    rw [heq, hid]
    exact ⟨hrelay, .driverSelf i, rfl, rfl⟩
  · rw [hpc] at hstep
    dsimp only at hstep
    rw [hb, Option.bind_some] at hstep
    obtain ⟨r, hr, rfl⟩ := Option.map_eq_some_iff.mp hstep
    obtain ⟨relay, hrelay, hid, heq⟩ := allocate_eq hr
    rw [heq, hid]
    exact ⟨hrelay, .driverPeer i, rfl, rfl⟩

/-- **An allocation for an agent that has left is there at once.** -/
theorem not_resumedConnected_step (hG : ¬ s.DriversConnected e) (hstep : s.step cfg e = some s') :
    ¬ s'.ResumedConnected := by
  simp only [DriversConnected, not_forall] at hG
  obtain ⟨i, now, uri, rfl, halloc, hgone⟩ := hG
  obtain ⟨hrelay, g, hg, hissued⟩ := halloc.step hstep
  obtain ⟨-, hlinks, hown⟩ := RelayState.step_allocate hrelay
  intro h
  refine hgone ((h (Plane.nextAllocID s.relay.forward.plane.nextID) uri.val g i ?_ ?_ hg).congr
    hlinks.symm)
  · rw [hown, if_pos rfl]
  · rw [lastGrantee_issue hissued, if_pos rfl]

end ForwardState

/-- **When disconnected agents own nothing.** In a run whose drivers all allocate
for connected agents, every allocation has a connected owner in every state in
which no forward-mode `handleConsumerStream` is in progress. The condition is
exact for the allocations of the drivers. -/
theorem disconnected_own_nothing {cfg : ForwardConfig} {idleTTL pendingTTL start : Time}
    {h : List (Transition ForwardState ForwardEvent)} {s : ForwardState}
    (hx : (forwardMachine cfg idleTTL pendingTTL start).Exec h s) :
    ((∀ t ∈ h, t.pre.DriversConnected t.ev) → Machine.Throughout ForwardState.OwnersConnected h s)
      ∧ (Machine.Throughout ForwardState.ResumedConnected h s
        ↔ ∀ t ∈ h, t.pre.DriversConnected t.ev) := by
  have hinit : ForwardState.ResumedConnected (forwardMachine cfg idleTTL pendingTTL start).init :=
    fun _ _ _ _ hu => absurd hu (Option.some_ne_none _).symm
  have hiff : Machine.Throughout ForwardState.ResumedConnected h s
      ↔ ∀ t ∈ h, t.pre.DriversConnected t.ev := by
    refine hx.throughout_iff hinit (fun hI => hI) (fun hs hI hG hstep => ?_)
      (fun _ _ hG hstep => ForwardState.not_resumedConnected_step hG hstep)
    exact ForwardState.resumedConnected_step (ForwardState.heldInv_of_reachable hs) hI hG hstep
  refine ⟨fun hG => ?_, hiff⟩
  obtain ⟨hlast, hall⟩ := hiff.mpr hG
  refine ⟨hlast.ownersConnected (ForwardState.heldInv_of_reachable ⟨h, hx⟩), fun t ht => ?_⟩
  exact (hall t ht).ownersConnected (ForwardState.heldInv_of_reachable (hx.step_of_mem ht).1)

/-- An agent leaves while its half of stream `9` is parked, and the peer comes. -/
def leftParked : List ForwardEvent :=
  [.relay (.register agentC), .relay (.track 0), .submit 0 9, .relay (.untrack 0),
    .relay (.unregister 0), .relay (.deregister 0), .relay (.forgetAgent 0 []),
    .relay (.register agentD), .relay (.track 1), .submit 1 9]

/-- The driver allocates for both. The agent that left has no connection, no
handler of an opened stream was ever started, and allocation `2` is its. -/
theorem departed_agent_owns_allocation :
    ∃ h s, (forwardMachine relayR2 100 30 0).Exec h s ∧ ¬ s.OwnersConnected
      ∧ s.opens = [] ∧ s.relay.links = [⟨agentC, .closed⟩, ⟨agentD, .serving⟩]
      ∧ s.relay.forward.plane.byAlloc.get 2 = some ⟨agentC.val, AddrPort.zero, 5⟩ := by
  obtain ⟨s, hrun, hopens, hlinks, hget⟩ : ∃ s, (forwardMachine relayR2 100 30 0).run
      (leftParked ++ List.replicate 6 (.driver 1 5)) (forwardMachine relayR2 100 30 0).init
        = some s
      ∧ s.opens = [] ∧ s.relay.links = [⟨agentC, .closed⟩, ⟨agentD, .serving⟩]
      ∧ s.relay.forward.plane.byAlloc.get 2 = some ⟨agentC.val, AddrPort.zero, 5⟩ :=
    ⟨_, rfl, rfl, rfl, rfl⟩
  obtain ⟨h, hx, -⟩ := Machine.exec_of_run _ _ hrun
  refine ⟨h, s, hx, fun hown => ?_, hopens, hlinks, hget⟩
  obtain ⟨i, link, hi, hu, hopen⟩ := hown (by rw [hopens]; exact fun _ _ h => nomatch h) 2 _ hget
  rw [hlinks] at hi
  match i with
  | 0 =>
    cases hi
    exact hopen rfl
  | 1 =>
    cases hi
    exact absurd hu (by decide)
  | i + 2 => cases hi

/-- Two agents are served, and the halves are theirs. -/
def BothServed (s : ForwardState) : Prop :=
  s.relay.links = [⟨agentC, .serving⟩, ⟨agentD, .serving⟩]
    ∧ s.halves.map ForwardHalf.agentURI = [agentC, agentD]

theorem BothServed.driversConnected {s : ForwardState} (hs : BothServed s) (e : ForwardEvent) :
    s.DriversConnected e := by
  have hconn : ∀ (j : ℕ) (a : ForwardHalf), s.halves[j]? = some a →
      s.relay.Connected a.agentURI.val := by
    intro j a hj
    have huri : (s.halves.map ForwardHalf.agentURI)[j]? = some a.agentURI := by
      rw [List.getElem?_map, hj]
      rfl
    rw [hs.2] at huri
    refine ⟨j, ⟨a.agentURI, .serving⟩, ?_, rfl, ServePC.noConfusion⟩
    rw [hs.1]
    match j with
    | 0 => rw [← Option.some.inj huri]; rfl
    | 1 => rw [← Option.some.inj huri]; rfl
    | j + 2 => cases huri
  rintro i now uri - ⟨a, hi, ⟨p, -, rfl⟩ | ⟨p, x, b, -, hb, rfl⟩⟩
  · exact hconn i a hi
  · exact hconn p b hb

/-- Both agents stay, and the allocations of the pair have connected owners. -/
theorem connected_pair_owns_allocations :
    ∃ h s, (forwardMachine relayR2 100 30 0).Exec h s
      ∧ Machine.Throughout ForwardState.OwnersConnected h s
      ∧ s.relay.forward.plane.byAlloc.get 1 = some ⟨agentD.val, AddrPort.zero, 5⟩
      ∧ s.relay.forward.plane.byAlloc.get 2 = some ⟨agentC.val, AddrPort.zero, 5⟩ := by
  obtain ⟨s₀, s₁, s₂, s₃, s₄, s₅, s, hrun, ⟨h₁, hb₀⟩, ⟨h₂, hb₁⟩, ⟨h₃, hb₂⟩, ⟨h₄, hb₃⟩, ⟨h₅, hb₄⟩,
      ⟨h₆, hb₅⟩, hself, hpeer⟩ : ∃ s₀ s₁ s₂ s₃ s₄ s₅ s,
      (forwardMachine relayR2 100 30 0).run bothResume (forwardMachine relayR2 100 30 0).init
        = some s₀
      ∧ ((forwardMachine relayR2 100 30 0).step s₀ (.driver 1 5) = some s₁ ∧ BothServed s₀)
      ∧ ((forwardMachine relayR2 100 30 0).step s₁ (.driver 1 5) = some s₂ ∧ BothServed s₁)
      ∧ ((forwardMachine relayR2 100 30 0).step s₂ (.driver 1 5) = some s₃ ∧ BothServed s₂)
      ∧ ((forwardMachine relayR2 100 30 0).step s₃ (.driver 1 5) = some s₄ ∧ BothServed s₃)
      ∧ ((forwardMachine relayR2 100 30 0).step s₄ (.driver 1 5) = some s₅ ∧ BothServed s₄)
      ∧ ((forwardMachine relayR2 100 30 0).step s₅ (.driver 1 5) = some s ∧ BothServed s₅)
      ∧ s.relay.forward.plane.byAlloc.get 1 = some ⟨agentD.val, AddrPort.zero, 5⟩
      ∧ s.relay.forward.plane.byAlloc.get 2 = some ⟨agentC.val, AddrPort.zero, 5⟩ :=
    ⟨_, _, _, _, _, _, _, rfl, ⟨rfl, rfl, rfl⟩, ⟨rfl, rfl, rfl⟩, ⟨rfl, rfl, rfl⟩, ⟨rfl, rfl, rfl⟩,
      ⟨rfl, rfl, rfl⟩, ⟨rfl, rfl, rfl⟩, rfl, rfl⟩
  obtain ⟨h, hx, hev⟩ := Machine.exec_of_run _ _ hrun
  have hx' := (((((hx.snoc h₁).snoc h₂).snoc h₃).snoc h₄).snoc h₅).snoc h₆
  refine ⟨_, s, hx', (disconnected_own_nothing hx').1 ?_, hself, hpeer⟩
  simp only [List.append_assoc, List.forall_mem_append, List.forall_mem_singleton]
  refine ⟨fun t ht => ?_, hb₀.driversConnected _, hb₁.driversConnected _, hb₂.driversConnected _,
    hb₃.driversConnected _, hb₄.driversConnected _, hb₅.driversConnected _⟩
  intro i now uri he
  have hmem : t.ev ∈ h.map Transition.ev := List.mem_map_of_mem ht
  rw [hev, he] at hmem
  simp [bothResume] at hmem
