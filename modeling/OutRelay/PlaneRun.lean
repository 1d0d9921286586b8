import OutRelay.PlaneTables
import OutRelay.Run

/-!
# Runs of the plane

The plane is driven by the relay (`Allocate`, `ArmPending`, `Forget`,
`ForgetAgent`), by its socket and by its collector. Each operation is one
critical section, so a run is a sequence of them; the clock, which the
operations read, never goes back.

`tableInv_of_exec` is the table invariant over whole runs. `Plane.Issued`
tracks why `Allocate` never hands out a live id as long as the 32-bit counter
has not gone round.
-/

/-- One operation of the plane. A datagram carries the two readings of the
clock that `register` makes; `ForgetAgent` and `gcOnce` carry the orders of
their loops. -/
inductive PlaneEvent
  | allocate (uri : GoString) (now : Time)
  | armPending (allocID : UInt32) (uri : GoString) (nonce : Nonce) (now : Time)
  | datagram (buf : List UInt8) (src : AddrPort) (now now' : Time)
  | forget (id : UInt32)
  | forgetAgent (uri : GoString) (order : List UInt32)
  | gcOnce (now : Time) (allocs : List (UInt32 × AllocEntry))
      (pends : List (UInt32 × PendingEntry)) (punches : List (UInt32 × QueuedPunch))

/-- The plane together with the last reading of the clock. -/
structure PlaneState where
  plane : Plane
  clock : Time

/-- **One operation of the plane.** Datagrams come from valid addresses. -/
def PlaneState.step (s : PlaneState) : PlaneEvent → Option PlaneState
  | .allocate uri now =>
    if s.clock ≤ now then (s.plane.allocate uri now).map (fun r => ⟨r.fst, now⟩) else none
  | .armPending allocID uri nonce now =>
    if s.clock ≤ now then some ⟨(s.plane.armPending allocID uri nonce now).fst, now⟩
    else none
  | .datagram buf src now now' =>
    if s.clock ≤ now ∧ now ≤ now' ∧ src.IsValid then
      some ⟨(s.plane.recv buf src now now').fst, now'⟩
    else none
  | .forget id => some ⟨s.plane.forget id, s.clock⟩
  | .forgetAgent uri order =>
    if s.plane.SetOrder uri order then some ⟨(s.plane.forgetAgent uri order).fst, s.clock⟩
    else none
  | .gcOnce now allocs pends punches =>
    if s.clock ≤ now ∧ s.plane.GCOrders now allocs pends punches then
      some ⟨s.plane.gcOnce now allocs pends punches, now⟩
    else none

/-- **The plane as a machine**, from a fresh plane at time `start`. -/
def planeMachine (idleTTL pendingTTL start : Time) : Machine PlaneState PlaneEvent :=
  ⟨⟨Plane.newPlane idleTTL pendingTTL, start⟩, PlaneState.step⟩

/-- Is the event a call of `Allocate`? -/
def PlaneEvent.isAllocate : PlaneEvent → Bool
  | .allocate _ _ => true
  | _ => false

/-- The number of `Allocate` calls of a run. -/
def allocCalls (h : List (Transition PlaneState PlaneEvent)) : ℕ :=
  h.countP (fun t => t.ev.isAllocate)

namespace PlaneState

variable {s s' : PlaneState} {e : PlaneEvent}

/-- **What a step can do**: issue an allocation, arm, take a punch, forward a
data packet, delete rows, or nothing. -/
theorem step_cases (hstep : s.step e = some s') :
    (∃ uri now q id, e = .allocate uri now ∧ s.plane.allocate uri now = some (q, id)
        ∧ s.clock ≤ now ∧ s' = ⟨q, now⟩)
    ∨ (∃ id uri nonce now, e = .armPending id uri nonce now ∧ s.clock ≤ now
        ∧ s' = ⟨(s.plane.armPending id uri nonce now).fst, now⟩)
    ∨ (∃ buf src now now' id nonce, e = .datagram buf src now now'
        ∧ Packet.decode buf = .punch id nonce ∧ src.IsValid ∧ s.clock ≤ now ∧ now ≤ now'
        ∧ s' = ⟨s.plane.register id src nonce now now', now'⟩)
    ∨ (∃ buf src now now' id payload, e = .datagram buf src now now'
        ∧ Packet.decode buf = .data id payload ∧ src.IsValid ∧ s.clock ≤ now ∧ now ≤ now'
        ∧ s' = ⟨s.plane.touch src now, now'⟩)
    ∨ (e.isAllocate = false ∧ s.plane.Shrinks s'.plane
        ∧ s.clock ≤ s'.clock
        ∧ (s.plane.TableInv → ∃ D, s.plane.Released s'.plane D)) := by
  have hidle : ∀ p : Plane, p.TableInv → ∃ D, p.Released p D := fun p h =>
    ⟨[], Plane.released_nil h.nonempty _ _ (fun _ _ hk => hk) (fun _ _ hk => hk)⟩
  cases e with
  | allocate uri now =>
    simp only [step] at hstep
    split_ifs at hstep with hclock
    obtain ⟨⟨q, id⟩, hq, rfl⟩ := Option.map_eq_some_iff.mp hstep
    exact Or.inl ⟨uri, now, q, id, rfl, hq, hclock, rfl⟩
  | armPending id uri nonce now =>
    simp only [step] at hstep
    split_ifs at hstep with hclock
    cases hstep
    exact Or.inr (Or.inl ⟨id, uri, nonce, now, rfl, hclock, rfl⟩)
  | datagram buf src now now' =>
    simp only [step, Plane.recv] at hstep
    split_ifs at hstep with hguard
    obtain ⟨hclock, hnow, hv⟩ := hguard
    cases hstep
    right; right
    cases hdec : Packet.decode buf with
    | punch id nonce =>
      exact Or.inl ⟨buf, src, now, now', id, nonce, rfl, hdec, hv, hclock, hnow, rfl⟩
    | data id payload =>
      exact Or.inr (Or.inl ⟨buf, src, now, now', id, payload, rfl, hdec, hv, hclock, hnow, rfl⟩)
    | short =>
      exact Or.inr (Or.inr ⟨rfl, Plane.Shrinks.refl _,
        hclock.trans hnow, hidle _⟩)
    | badRegistration =>
      exact Or.inr (Or.inr ⟨rfl, Plane.Shrinks.refl _,
        hclock.trans hnow, hidle _⟩)
  | forget id =>
    cases hstep
    exact Or.inr (Or.inr (Or.inr (Or.inr ⟨rfl,
      Plane.shrinks_forget s.plane id, le_rfl, fun h => ⟨_, h.released_forget id⟩⟩)))
  | forgetAgent uri order =>
    simp only [step] at hstep
    split_ifs at hstep with horder
    cases hstep
    exact Or.inr (Or.inr (Or.inr (Or.inr ⟨rfl,
      Plane.shrinks_forgetAgent s.plane uri order, le_rfl,
      fun h => ⟨_, h.released_forgetAgent horder⟩⟩)))
  | gcOnce now allocs pends punches =>
    simp only [step] at hstep
    split_ifs at hstep with hguard
    cases hstep
    exact Or.inr (Or.inr (Or.inr (Or.inr ⟨rfl,
      Plane.shrinks_gcOnce s.plane now allocs pends punches, hguard.1,
      fun h => ⟨_, h.released_gcOnce hguard.2.1 pends punches⟩⟩)))

theorem srcInv_step (hS : s.plane.SrcInv) (hstep : s.step e = some s') :
    s'.plane.SrcInv := by
  rcases step_cases hstep with
    ⟨uri, now, q, id, rfl, ha, -, rfl⟩ | ⟨id, uri, nonce, now, rfl, -, rfl⟩
    | ⟨buf, src, now, now', id, nonce, rfl, -, hv, -, -, rfl⟩
    | ⟨buf, src, now, now', id, payload, rfl, -, hv, -, -, rfl⟩ | ⟨-, hsh, -, -⟩
  · obtain ⟨-, -, -, -, hsrc, -, hqueued⟩ := Plane.allocate_byAlloc ha
    exact ⟨hsrc ▸ hS.src2id, hqueued ▸ hS.queued⟩
  · exact hS.armPending id uri nonce now
  · exact hS.register hv id nonce now now'
  · exact hS.touch
  · exact hS.shrinks hsh

/-- Only valid addresses are kept, in every reachable state. -/
theorem srcInv_of_reachable {idleTTL pendingTTL start : Time}
    (hr : (planeMachine idleTTL pendingTTL start).Reachable s) : s.plane.SrcInv := by
  refine hr.invariant (I := fun s => s.plane.SrcInv) ⟨nofun, nofun⟩ ?_
  intro s e s' _ hS hstep
  exact srcInv_step hS hstep

end PlaneState

namespace Plane

variable {p : Plane}

/-- The handshake changes no owner and issues nothing. -/
theorem armPending_ownerOf (p : Plane) (id : UInt32) (uri : GoString) (nonce : Nonce)
    (now : Time) : (p.armPending id uri nonce now).fst.ownerOf = p.ownerOf
      ∧ (p.armPending id uri nonce now).fst.nextID = p.nextID := by
  rcases armPending_cases p id uri nonce now with
    ⟨-, heq⟩ | ⟨entry, he, -, -, -, heq | ⟨q, -, -, -, heq⟩⟩
  · rw [heq]; exact ⟨rfl, rfl⟩
  · rw [heq]; exact ⟨rfl, rfl⟩
  · rw [heq]
    exact ⟨ownerOf_setEntry (rebind_byAlloc _ id entry q.src now) he rfl,
      rebind_nextID _ id entry q.src now⟩

/-- A punch changes no owner and issues nothing. -/
theorem register_ownerOf (p : Plane) (id : UInt32) (src : AddrPort) (nonce : Nonce)
    (now now' : Time) : (p.register id src nonce now now').ownerOf = p.ownerOf
      ∧ (p.register id src nonce now now').nextID = p.nextID := by
  rcases register_cases p id src nonce now now' with
    ⟨-, heq⟩ | heq | heq | ⟨pend, entry, -, -, -, he, heq⟩
  · rw [heq]; exact ⟨rfl, rfl⟩
  · rw [heq]; exact ⟨rfl, rfl⟩
  · rw [heq]; exact ⟨rfl, rfl⟩
  · rw [heq]
    exact ⟨ownerOf_setEntry (rebind_byAlloc _ id entry src now) he rfl,
      rebind_nextID _ id entry src now⟩

/-- A data packet changes no owner and issues nothing. -/
theorem touch_ownerOf (p : Plane) (src : AddrPort) (now : Time) :
    (p.touch src now).ownerOf = p.ownerOf ∧ (p.touch src now).nextID = p.nextID := by
  unfold touch
  split
  · exact ⟨rfl, rfl⟩
  · split
    · exact ⟨rfl, rfl⟩
    · rename_i hsender
      exact ⟨ownerOf_setEntry rfl hsender rfl, rfl⟩

/-- Neither does the handshake touch the owner index, nor a data packet. -/
theorem armPending_byURI (p : Plane) (id : UInt32) (uri : GoString) (nonce : Nonce)
    (now : Time) : (p.armPending id uri nonce now).fst.byURI = p.byURI := by
  rcases armPending_cases p id uri nonce now with
    ⟨-, heq⟩ | ⟨entry, -, -, -, -, heq | ⟨q, -, -, -, heq⟩⟩
  · rw [heq]
  · rw [heq]
  · rw [heq, rebind_byURI]

theorem register_byURI (p : Plane) (id : UInt32) (src : AddrPort) (nonce : Nonce)
    (now now' : Time) : (p.register id src nonce now now').byURI = p.byURI := by
  rcases register_cases p id src nonce now now' with
    ⟨-, heq⟩ | heq | heq | ⟨pend, entry, -, -, -, -, heq⟩
  · rw [heq]
  · rw [heq]
  · rw [heq]
  · rw [heq]
    exact rebind_byURI p id entry src now

theorem touch_byURI (p : Plane) (src : AddrPort) (now : Time) :
    (p.touch src now).byURI = p.byURI := by
  unfold touch
  split
  · rfl
  · split <;> rfl

/-- **The first `n` ids have been issued and no other**: the counter stands at
`n`, and no live allocation is past it. -/
def Issued (p : Plane) (n : ℕ) : Prop :=
  p.nextID.toNat = n ∧ ∀ id u, p.ownerOf id = some u → id.toNat ≤ n

/-- Before the counter goes round, the id loop of `Allocate` is a successor. -/
theorem toNat_nextAllocID {n : UInt32} (h : n.toNat + 1 < 2 ^ 32) :
    (nextAllocID n).toNat = n.toNat + 1 := by
  have hsucc : (n + 1).toNat = n.toNat + 1 := by
    rw [UInt32.toNat_add]
    exact Nat.mod_eq_of_lt h
  unfold nextAllocID
  rw [if_pos, hsucc]
  intro h0
  rw [h0] at hsucc
  exact absurd hsucc (by simp)

/-- Before the counter goes round, the id `Allocate` would issue is not live. -/
theorem Issued.fresh {n : ℕ} (h : p.Issued n) (hn : n + 1 < 2 ^ 32) :
    p.byAlloc.get (nextAllocID p.nextID) = none := by
  refine ownerOf_eq_none.mp (Option.eq_none_iff_forall_ne_some.mpr fun u hu => ?_)
  have hle := h.2 _ u hu
  rw [toNat_nextAllocID (h.1.symm ▸ hn), h.1] at hle
  omega

/-- Before the counter goes round, `Allocate` issues an id that is not live. -/
theorem Issued.allocate {q : Plane} {n : ℕ} {uri : GoString} {now : Time} {id : UInt32}
    (h : p.Issued n) (hn : n + 1 < 2 ^ 32) (ha : p.allocate uri now = some (q, id)) :
    p.byAlloc.get id = none ∧ q.Issued (n + 1) := by
  obtain ⟨hid, hnext, -, hby, -⟩ := allocate_byAlloc ha
  have hto : id.toNat = n + 1 := by
    rw [hid, toNat_nextAllocID (h.1.symm ▸ hn), h.1]
  refine ⟨hid ▸ h.fresh hn, hnext ▸ hto, fun k u hu => ?_⟩
  unfold ownerOf at hu
  rw [hby, GoMap.get_set] at hu
  split_ifs at hu with hk
  · exact le_of_eq (hk ▸ hto)
  · exact (h.2 k u hu).trans (Nat.le_succ n)

end Plane

namespace PlaneState

variable {s s' : PlaneState} {e : PlaneEvent}

/-- Only `Allocate` gives an id an owner. -/
theorem ownerOf_of_step {id : UInt32} {u : GoString} (hna : e.isAllocate = false)
    (hstep : s.step e = some s') (hu : s'.plane.ownerOf id = some u) :
    s.plane.ownerOf id = some u := by
  rcases step_cases hstep with
    ⟨uri, now, q, k, rfl, -⟩ | ⟨k, uri, nonce, now, rfl, -, rfl⟩
    | ⟨buf, src, now, now', k, nonce, rfl, -, -, -, -, rfl⟩
    | ⟨buf, src, now, now', k, payload, rfl, -, -, -, -, rfl⟩ | ⟨-, hsh, -, -⟩
  · cases hna
  · rwa [(Plane.armPending_ownerOf s.plane k uri nonce now).1] at hu
  · rwa [(Plane.register_ownerOf s.plane k src nonce now now').1] at hu
  · rwa [(Plane.touch_ownerOf s.plane src now).1] at hu
  · obtain ⟨entry, he, rfl⟩ := Option.map_eq_some_iff.mp hu
    exact Plane.ownerOf_of_get (hsh.byAlloc id entry he)

/-- Only `Allocate` moves the counter. -/
theorem nextID_of_step (hna : e.isAllocate = false) (hstep : s.step e = some s') :
    s'.plane.nextID = s.plane.nextID := by
  rcases step_cases hstep with
    ⟨uri, now, q, k, rfl, -⟩ | ⟨k, uri, nonce, now, rfl, -, rfl⟩
    | ⟨buf, src, now, now', k, nonce, rfl, -, -, -, -, rfl⟩
    | ⟨buf, src, now, now', k, payload, rfl, -, -, -, -, rfl⟩ | ⟨-, hsh, -, -⟩
  · cases hna
  · exact (Plane.armPending_ownerOf s.plane k uri nonce now).2
  · exact (Plane.register_ownerOf s.plane k src nonce now now').2
  · exact (Plane.touch_ownerOf s.plane src now).2
  · exact hsh.nextID

/-- Every other operation keeps what has been issued. -/
theorem issued_step {n : ℕ} (hI : s.plane.Issued n) (hna : e.isAllocate = false)
    (hstep : s.step e = some s') : s'.plane.Issued n :=
  ⟨(congrArg UInt32.toNat (nextID_of_step hna hstep)).trans hI.1,
    fun id u hu => hI.2 id u (ownerOf_of_step hna hstep hu)⟩

/-- Every other operation keeps the tables in agreement. -/
theorem tableInv_step (hT : s.plane.TableInv) (hS : s.plane.SrcInv) (hna : e.isAllocate = false)
    (hstep : s.step e = some s') : s'.plane.TableInv := by
  rcases step_cases hstep with
    ⟨uri, now, q, id, rfl, -⟩ | ⟨id, uri, nonce, now, rfl, -, rfl⟩
    | ⟨buf, src, now, now', id, nonce, rfl, -, hv, -, -, rfl⟩
    | ⟨buf, src, now, now', id, payload, rfl, -, hv, -, -, rfl⟩ | ⟨-, -, -, hrel⟩
  · cases hna
  · exact hT.armPending hS id uri nonce now
  · exact hT.register hv id nonce now now'
  · exact hT.touch
  · obtain ⟨D, hD⟩ := hrel hT
    exact hT.released hD

end PlaneState

/-- The number of `Allocate` calls is one of the events alone. -/
theorem allocCalls_eq (h : List (Transition PlaneState PlaneEvent)) :
    allocCalls h = (h.map Transition.ev).countP PlaneEvent.isAllocate := by
  rw [List.countP_map]
  rfl

/-- One more step is one more call exactly when it is an `Allocate`. -/
theorem allocCalls_snoc (h : List (Transition PlaneState PlaneEvent))
    (t : Transition PlaneState PlaneEvent) :
    allocCalls (h ++ [t]) = allocCalls h + if t.ev.isAllocate then 1 else 0 := by
  unfold allocCalls
  rw [List.countP_append, List.countP_singleton]

theorem Plane.tableInv_newPlane (idleTTL pendingTTL : Time) :
    (Plane.newPlane idleTTL pendingTTL).TableInv := by
  refine ⟨fun u id => ⟨fun ⟨_, hs, _⟩ => (nomatch hs), nofun⟩, ?_, ?_, ?_, ?_, rfl⟩
  all_goals intro _
  · nofun
  · nofun
  · nofun
  · exact Or.inl rfl

/-- The agreement of the tables, the validity of addresses and the state of
the counter are carried together along a run. -/
theorem plane_inv_of_exec {idleTTL pendingTTL start : Time}
    {h : List (Transition PlaneState PlaneEvent)} {s : PlaneState}
    (hx : (planeMachine idleTTL pendingTTL start).Exec h s)
    (hn : allocCalls h < 2 ^ 32 - 1) :
    s.plane.TableInv ∧ s.plane.SrcInv ∧ s.plane.Issued (allocCalls h) := by
  induction hx with
  | nil => exact ⟨Plane.tableInv_newPlane _ _, ⟨nofun, nofun⟩, rfl, nofun⟩
  | @snoc h s s' e hx hstep ih =>
    rw [allocCalls_snoc] at hn ⊢
    obtain ⟨hT, hS, hI⟩ := ih (by omega)
    have hS' := PlaneState.srcInv_step hS hstep
    by_cases hna : e.isAllocate = false
    · rw [if_neg (by simp [hna])]
      exact ⟨PlaneState.tableInv_step hT hS hna hstep, hS', PlaneState.issued_step hI hna hstep⟩
    · cases e with
      | allocate uri now =>
        have hstep : s.step (.allocate uri now) = some s' := hstep
        simp only [PlaneState.step] at hstep
        split_ifs at hstep
        obtain ⟨⟨q, id⟩, ha, rfl⟩ := Option.map_eq_some_iff.mp hstep
        obtain ⟨hfresh, hI'⟩ := hI.allocate (by simp [PlaneEvent.isAllocate] at hn; omega) ha
        exact ⟨hT.allocate ha hfresh, hS', hI'⟩
      | _ => exact absurd rfl hna

/-- **The tables of the plane agree in every reachable state**, as long as
fewer than `2 ^ 32 - 1` allocations have been issued. -/
theorem tableInv_of_exec {idleTTL pendingTTL start : Time}
    {h : List (Transition PlaneState PlaneEvent)} {s : PlaneState}
    (hx : (planeMachine idleTTL pendingTTL start).Exec h s)
    (hn : allocCalls h < 2 ^ 32 - 1) : s.plane.TableInv :=
  (plane_inv_of_exec hx hn).1

/-- The bytes of a punch for allocation `id`, for a one-byte id, with the
nonce that repeats `b`. -/
def punchBytes (id b : UInt8) : List UInt8 :=
  [0, 0, 0, 0, 0, 0, 0, id] ++ List.replicate punchNonceSize b

/-- The nonce that repeats `b`. -/
def repeatNonce (b : UInt8) : Nonce := ⟨List.replicate punchNonceSize b, rfl⟩

/-- The IPv4 loopback address at a port. -/
def loopback (port : UInt16) : AddrPort := ⟨some (.v4 0x7f000001), port⟩

/-- The agreement after a complete handshake, on the default timeouts. -/
theorem tableInv_after_handshake :
    ∃ h s, (planeMachine defaultAllocIdleTTL defaultPendingTTL 0).Exec h s
      ∧ allocCalls h < 2 ^ 32 - 1 ∧ s.plane.lookup 1 = some (loopback 4000)
      ∧ s.plane.TableInv := by
  obtain ⟨h, hx, hev⟩ := Machine.exec_of_run
    (planeMachine defaultAllocIdleTTL defaultPendingTTL 0)
    [.allocate (go "c1") 1, .armPending 1 (go "c1") (repeatNonce 7) 2,
      .datagram (punchBytes 1 7) (loopback 4000) 3 4] rfl
  have hn : allocCalls h < 2 ^ 32 - 1 := by
    rw [allocCalls_eq, hev]
    decide
  exact ⟨h, _, hx, hn, rfl, tableInv_of_exec hx hn⟩
