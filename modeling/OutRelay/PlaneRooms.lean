import OutRelay.PlaneTwins

/-!
# Who may wait

The two waiting rooms of the handshake hold rows by allocation id. Every
operation that takes an allocation out of `byAlloc` reaps its rows, and
`ArmPending` looks the allocation up before it enters one, so `pending` has
rows of live allocations only (`pending_live`). A punch is different: `register`
looks for an armed nonce, and where there is none it queues the punch without
having asked `byAlloc` whether there is such an allocation. A datagram is all it
takes to make a row for an id that was never issued, or that has been released,
and it stays until a collection finds it expired.

So the rows of both rooms belong to live allocations exactly as long as nobody
punches for an id that is not live (`roomsLive_iff`), and then there are no more
queued punches than allocations. No bound on the number of allocations is used:
the statements survive the wrap of the counter.
-/

namespace Plane

variable {p : Plane} {k : UInt32}

/-- **Every row of the waiting rooms belongs to a live allocation.** -/
structure RoomsLive (p : Plane) : Prop where
  pending : ∀ k x, p.pending.get k = some x → ∃ entry, p.byAlloc.get k = some entry
  queued : ∀ k x, p.queued.get k = some x → ∃ entry, p.byAlloc.get k = some entry

/-- **The operation is not a punch for an id that is not live.** -/
def PunchesLive (p : Plane) : PlaneEvent → Prop
  | .datagram buf _ _ _ =>
    ∀ id nonce, Packet.decode buf = .punch id nonce → ∃ entry, p.byAlloc.get id = some entry
  | _ => True

/-- An id that is not live has no row. -/
theorem RoomsLive.row_eq (h : p.RoomsLive) (hk : p.byAlloc.get k = none) :
    p.row k = ⟨none, none⟩ := by
  ext1
  · refine Option.eq_none_iff_forall_ne_some.mpr fun x hx => ?_
    obtain ⟨entry, he⟩ := h.pending k x hx
    cases hk.symm.trans he
  · refine Option.eq_none_iff_forall_ne_some.mpr fun x hx => ?_
    obtain ⟨entry, he⟩ := h.queued k x hx
    cases hk.symm.trans he

theorem roomsLive_of_row (h : ∀ k, p.byAlloc.get k = none → p.row k = ⟨none, none⟩) :
    p.RoomsLive := by
  refine ⟨fun k x hx => ?_, fun k x hx => ?_⟩
  · cases hk : p.byAlloc.get k with
    | none => cases (congrArg Row.pending (h k hk)).symm.trans hx
    | some entry => exact ⟨entry, rfl⟩
  · cases hk : p.byAlloc.get k with
    | none => cases (congrArg Row.queued (h k hk)).symm.trans hx
    | some entry => exact ⟨entry, rfl⟩

/-! ## The rows of an id that is not live -/

theorem not_owned {id : UInt32} {uri : GoString} (hk : p.byAlloc.get k = none) :
    ¬ (id = k ∧ uri ≠ [] ∧ p.ownerOf k = some uri) := by
  rintro ⟨-, -, hown⟩
  cases (ownerOf_eq_none.mpr hk).symm.trans hown

/-- Nobody can arm an id that is not live. -/
theorem pending_rowAfter {r : Row} {e : PlaneEvent} (hk : p.byAlloc.get k = none)
    (hr : r.pending = none) : (p.rowAfter k r e).pending = none := by
  cases e with
  | allocate uri now => exact hr
  | armPending id uri nonce now =>
    dsimp only [rowAfter]
    rw [if_neg (not_owned hk)]
    exact hr
  | datagram buf src now now' =>
    dsimp only [rowAfter]
    split
    · split_ifs
      · rw [hr]
      · exact hr
    · exact hr
  | forget id =>
    dsimp only [rowAfter]
    split_ifs
    · rfl
    · exact hr
  | forgetAgent uri order =>
    dsimp only [rowAfter]
    split_ifs
    · rfl
    · exact hr
  | gcOnce now allocs pends punches =>
    dsimp only [rowAfter]
    split_ifs
    · rfl
    · rw [hr]
      rfl

/-- Without a punch it has no row. -/
theorem rowAfter_of_dead {e : PlaneEvent} (hk : p.byAlloc.get k = none) (he : p.PunchesLive e) :
    p.rowAfter k ⟨none, none⟩ e = ⟨none, none⟩ := by
  refine Row.ext (pending_rowAfter hk rfl) ?_
  cases e with
  | allocate uri now => rfl
  | armPending id uri nonce now =>
    dsimp only [rowAfter]
    rw [if_neg (not_owned hk)]
  | datagram buf src now now' =>
    dsimp only [rowAfter]
    split
    · rename_i id nonce hdec
      obtain ⟨entry, hentry⟩ := he id nonce hdec
      rw [if_neg]
      rintro rfl
      cases hk.symm.trans hentry
    · rfl
  | forget id =>
    dsimp only [rowAfter]
    split_ifs <;> rfl
  | forgetAgent uri order =>
    dsimp only [rowAfter]
    split_ifs <;> rfl
  | gcOnce now allocs pends punches =>
    dsimp only [rowAfter]
    split_ifs <;> rfl

end Plane

namespace PlaneState

variable {s s' : PlaneState} {e : PlaneEvent} {k : UInt32} {idleTTL pendingTTL start : Time}
  {h : List (Transition PlaneState PlaneEvent)}

/-- **An allocation leaves with its rows.** -/
theorem row_of_released (hstep : s.step e = some s') (hk' : s'.plane.byAlloc.get k = none) :
    s.plane.byAlloc.get k = none ∨ s'.plane.row k = ⟨none, none⟩ := by
  cases hk : s.plane.byAlloc.get k with
  | none => exact Or.inl rfl
  | some entry =>
    refine Or.inr ((row_step hstep k).trans ?_)
    have hreleases : s.plane.Releases k e := by
      by_cases hnew : ∃ uri now, e = .allocate uri now
        ∧ Plane.nextAllocID s.plane.nextID = k
      · obtain ⟨uri, now, rfl, rfl⟩ := hnew
        simp only [step] at hstep
        split_ifs at hstep
        obtain ⟨⟨q, i⟩, hq, rfl⟩ := Option.map_eq_some_iff.mp hstep
        obtain ⟨hi, -, -, hby, -⟩ := Plane.allocate_byAlloc hq
        rw [show q.byAlloc = _ from hby, hi, GoMap.get_set_self] at hk'
        cases hk'
      · have hfresh : ∀ uri now, e = .allocate uri now →
            Plane.nextAllocID s.plane.nextID ≠ k := fun uri now he hid => hnew ⟨uri, now, he, hid⟩
        rcases entry_cases hk hfresh hstep with ⟨_, hget, -⟩ | ⟨_, -, _, hget, -⟩ | ⟨-, hrel⟩
        · cases hk'.symm.trans hget
        · cases hk'.symm.trans hget
        · exact hrel
    cases e with
    | allocate uri now => exact absurd hreleases not_false
    | armPending id uri nonce now => exact absurd hreleases not_false
    | datagram buf src now now' => exact absurd hreleases not_false
    | forget id => exact if_pos hreleases
    | forgetAgent uri order =>
      simp only [step] at hstep
      split_ifs at hstep with ho
      refine if_pos ⟨hreleases.1, ?_, fun hnone => ?_⟩
      · rw [← ho.2, List.mem_toFinset]
        exact hreleases.2
      · cases hk.symm.trans hnone
    | gcOnce now allocs pends punches => exact if_pos hreleases

/-- **`pending` holds rows of live allocations**, whatever is sent. -/
theorem pending_live (hs : (planeMachine idleTTL pendingTTL start).Reachable s) (k : UInt32)
    (hk : s.plane.byAlloc.get k = none) : s.plane.pending.get k = none := by
  refine hs.invariant (I := fun s => ∀ k, s.plane.byAlloc.get k = none →
    s.plane.pending.get k = none) (fun k _ => GoMap.get_empty k) (fun _ I hstep k hk' => ?_) k hk
  rcases row_of_released hstep hk' with hk | hrow
  · exact (congrArg Plane.Row.pending (row_step hstep k)).trans
      (Plane.pending_rowAfter hk (I k hk))
  · exact congrArg Plane.Row.pending hrow

theorem roomsLive_step (hI : s.plane.RoomsLive) (hG : s.plane.PunchesLive e)
    (hstep : s.step e = some s') : s'.plane.RoomsLive := by
  refine Plane.roomsLive_of_row fun k hk' => ?_
  rcases row_of_released hstep hk' with hk | hrow
  · rw [row_step hstep k, hI.row_eq hk]
    exact Plane.rowAfter_of_dead hk hG
  · exact hrow

/-- **A punch for an id that is not live makes a row for it.** -/
theorem not_roomsLive_step (hI : s.plane.RoomsLive) (hG : ¬ s.plane.PunchesLive e)
    (hstep : s.step e = some s') : ¬ s'.plane.RoomsLive := by
  cases e with
  | datagram buf src now now' =>
    simp only [Plane.PunchesLive, not_forall] at hG
    obtain ⟨id, nonce, hdec, hdead⟩ := hG
    have hk : s.plane.byAlloc.get id = none :=
      Option.eq_none_iff_forall_ne_some.mpr fun entry he => hdead ⟨entry, he⟩
    have hpend : s.plane.pending.get id = none := congrArg Plane.Row.pending (hI.row_eq hk)
    simp only [step, Plane.recv, hdec] at hstep
    split_ifs at hstep
    cases hstep
    have hqueue : s.plane.register id src nonce now now' = { s.plane with
        queued := s.plane.queued.set id ⟨src, nonce, now + s.plane.ttl⟩ } := by
      unfold Plane.register
      rw [hpend]
    dsimp only
    rw [hqueue]
    intro hlive
    obtain ⟨entry, he⟩ := hlive.queued id _ (GoMap.get_set_self _ _ _)
    exact hdead ⟨entry, he⟩
  | allocate uri now => exact absurd trivial hG
  | armPending id uri nonce now => exact absurd trivial hG
  | forget id => exact absurd trivial hG
  | forgetAgent uri order => exact absurd trivial hG
  | gcOnce now allocs pends punches => exact absurd trivial hG

end PlaneState

/-- **When only live allocations wait.** In every run, the rows of both waiting
rooms belong to live allocations throughout exactly when no punch is for an id
that is not live; then there are never more queued punches than allocations.
The rows of `pending` do in any case. -/
theorem roomsLive_iff {idleTTL pendingTTL start : Time}
    {h : List (Transition PlaneState PlaneEvent)} {s : PlaneState}
    (hx : (planeMachine idleTTL pendingTTL start).Exec h s) :
    (Machine.Throughout (fun s => s.plane.RoomsLive) h s ↔ ∀ t ∈ h, t.pre.plane.PunchesLive t.ev)
    ∧ ((∀ t ∈ h, t.pre.plane.PunchesLive t.ev) →
      Machine.Throughout (fun s => s.plane.queued.len ≤ s.plane.byAlloc.len) h s)
    ∧ Machine.Throughout (fun s => ∀ k, s.plane.byAlloc.get k = none →
      s.plane.pending.get k = none) h s := by
  have hinit : (planeMachine idleTTL pendingTTL start).init.plane.RoomsLive :=
    Plane.roomsLive_of_row fun k _ => Plane.Row.ext (GoMap.get_empty k) (GoMap.get_empty k)
  have hiff := hx.throughout_iff (I := fun s => s.plane.RoomsLive)
    (P := fun s => s.plane.RoomsLive) hinit (fun I => I)
    (fun _ I hG hstep => PlaneState.roomsLive_step I hG hstep)
    (fun _ I hG hstep => PlaneState.not_roomsLive_step I hG hstep)
  refine ⟨hiff, fun hG => ?_, ?_⟩
  · obtain ⟨hlast, hall⟩ := hiff.mpr hG
    exact ⟨GoMap.len_le_of_keys hlast.queued, fun t ht => GoMap.len_le_of_keys (hall t ht).queued⟩
  · refine ⟨fun k => PlaneState.pending_live ⟨h, hx⟩ k, fun t ht k => ?_⟩
    exact PlaneState.pending_live (hx.step_of_mem ht).1 k

/-- One datagram to a fresh plane queues a punch for an allocation that nobody
has issued. -/
theorem punch_queued_for_unissued_id :
    ∃ h s, (planeMachine defaultAllocIdleTTL defaultPendingTTL 0).Exec h s
      ∧ h.map Transition.ev = [.datagram (punchBytes 9 7) (loopback 4000) 1 1]
      ∧ s.plane.queued.get 9 = some ⟨loopback 4000, repeatNonce 7, 5000000001⟩
      ∧ s.plane.byAlloc = ∅ ∧ ¬ s.plane.RoomsLive := by
  obtain ⟨h, hx, hev⟩ := Machine.exec_of_run
    (planeMachine defaultAllocIdleTTL defaultPendingTTL 0)
    [.datagram (punchBytes 9 7) (loopback 4000) 1 1] rfl
  refine ⟨h, _, hx, hev, rfl, rfl, fun hlive => ?_⟩
  obtain ⟨entry, he⟩ := hlive.queued 9 ⟨loopback 4000, repeatNonce 7, 5000000001⟩ rfl
  cases he

/-- The queued punch of a handshake whose nonce comes second belongs to a live
allocation. -/
theorem queued_punch_of_live_allocation :
    ∃ h s, (planeMachine defaultAllocIdleTTL defaultPendingTTL 0).Exec h s
      ∧ Machine.Throughout (fun s => s.plane.RoomsLive) h s
      ∧ s.plane.queued.get 1 = some ⟨loopback 4000, repeatNonce 7, 5000000002⟩ := by
  obtain ⟨s₁, s₂, h₁, h₂, hlive, hqueued⟩ : ∃ s₁ s₂,
      (planeMachine defaultAllocIdleTTL defaultPendingTTL 0).step
        (planeMachine defaultAllocIdleTTL defaultPendingTTL 0).init (.allocate (go "c1") 1)
          = some s₁
      ∧ (planeMachine defaultAllocIdleTTL defaultPendingTTL 0).step s₁
        (.datagram (punchBytes 1 7) (loopback 4000) 2 2) = some s₂
      ∧ s₁.plane.byAlloc.get 1 = some ⟨go "c1", AddrPort.zero, 1⟩
      ∧ s₂.plane.queued.get 1 = some ⟨loopback 4000, repeatNonce 7, 5000000002⟩ :=
    ⟨_, _, rfl, rfl, rfl, rfl⟩
  have hx := (Machine.Exec.nil.snoc h₁).snoc h₂
  refine ⟨_, _, hx, (roomsLive_iff hx).1.mpr fun t ht => ?_, hqueued⟩
  simp only [List.nil_append, List.mem_append, List.mem_singleton] at ht
  rcases ht with rfl | rfl
  · trivial
  · intro id nonce hdec
    have hpunch : Packet.decode (punchBytes 1 7) = .punch 1 (repeatNonce 7) := rfl
    cases hpunch.symm.trans hdec
    exact ⟨_, hlive⟩
