import Mathlib.Tactic.Linarith
import OutRelay.PlaneRun

/-!
# How an allocation comes to its address

The address of an allocation is where the plane sends its datagrams, so
whoever can change it can divert a stream. The plane changes it in two places
only – a punch that finds its nonce armed, and an arming that finds its punch
queued – and each of them should rest on both halves of the handshake: an
owner who armed the nonce over an authenticated control connection, and a
datagram that carries it.

Neither place sees both halves. A punch trusts the row in `pending`, an
arming the row in `queued`; that these rows are what the earlier half left,
and left untouched since, is a statement about the history of the run.
`HandshakeHistory` is that statement: every waiting row, and every address in
use, is traced to the step of the run it comes from. `binding_authentic` reads
off what it means for the bindings.
-/

namespace Plane

variable {p : Plane} {now : Time} {j : UInt32}

/-! ## The two steps that bind -/

/-- The punch queued for `id` is one that arming `nonce` for `uri` at `now`
binds. -/
def Drains (p : Plane) (id : UInt32) (uri : GoString) (nonce : Nonce) (now : Time)
    (src : AddrPort) : Prop :=
  uri ≠ [] ∧ p.ownerOf id = some uri
    ∧ ∃ q, p.queued.get id = some q ∧ now < q.expires ∧ q.nonce = nonce ∧ q.src = src

/-- A punch for `id` with `nonce`, tested at `now'`, is one that binds. -/
def Binds (p : Plane) (id : UInt32) (nonce : Nonce) (now' : Time) : Prop :=
  (∃ e, p.byAlloc.get id = some e)
    ∧ ∃ pend, p.pending.get id = some pend ∧ now' ≤ pend.expires ∧ pend.nonce = nonce

/-- Arming a nonce that drains binds the queued punch. -/
theorem Drains.armPending_eq {id : UInt32} {uri : GoString} {nonce : Nonce}
    {src : AddrPort} (h : p.Drains id uri nonce now src) :
    ∃ entry, p.byAlloc.get id = some entry
      ∧ p.armPending id uri nonce now
        = (rebind { p with queued := p.queued.del id } id entry src now, .ok ()) := by
  obtain ⟨huri, hown, q, hq, hexp, hnonce, rfl⟩ := h
  obtain ⟨entry, he, rfl⟩ := Option.map_eq_some_iff.mp hown
  refine ⟨entry, he, ?_⟩
  unfold armPending
  rw [if_neg huri, he]
  dsimp only
  rw [if_neg (not_not.mpr rfl), hq]
  dsimp only
  rw [if_pos ⟨hexp, hnonce⟩]

/-- A punch that binds binds its source. -/
theorem Binds.register_eq {id : UInt32} {nonce : Nonce} {now' : Time}
    (h : p.Binds id nonce now') (src : AddrPort) (now : Time) :
    ∃ entry, p.byAlloc.get id = some entry
      ∧ p.register id src nonce now now'
        = { p.rebind id entry src now with pending := p.pending.del id } := by
  obtain ⟨⟨entry, he⟩, pend, hp, hexp, hnonce⟩ := h
  refine ⟨entry, he, ?_⟩
  unfold register
  rw [hp]
  dsimp only
  rw [if_neg (not_lt.mpr hexp), if_neg (not_not.mpr hnonce), he]
  dsimp only
  rw [rebind_pending]

theorem armPending_pendingTTL (p : Plane) (id : UInt32) (uri : GoString) (nonce : Nonce)
    (now : Time) : (p.armPending id uri nonce now).fst.pendingTTL = p.pendingTTL := by
  rcases armPending_cases p id uri nonce now with
    ⟨-, heq⟩ | ⟨entry, -, -, -, -, heq | ⟨q, -, -, -, heq⟩⟩
  · rw [heq]
  · rw [heq]
  · rw [heq, rebind_pendingTTL]

theorem register_pendingTTL (p : Plane) (id : UInt32) (src : AddrPort) (nonce : Nonce)
    (now now' : Time) : (p.register id src nonce now now').pendingTTL = p.pendingTTL := by
  rcases register_cases p id src nonce now now' with
    ⟨-, heq⟩ | heq | heq | ⟨pend, entry, -, -, -, -, heq⟩
  · rw [heq]
  · rw [heq]
  · rw [heq]
  · rw [heq]
    exact rebind_pendingTTL p id entry src now

/-- A data packet leaves the waiting rooms and the timeout alone. -/
theorem touch_rooms (p : Plane) (src : AddrPort) (now : Time) :
    (p.touch src now).pending = p.pending ∧ (p.touch src now).queued = p.queued
      ∧ (p.touch src now).pendingTTL = p.pendingTTL := by
  unfold touch
  split
  · exact ⟨rfl, rfl, rfl⟩
  · split <;> exact ⟨rfl, rfl, rfl⟩

/-- **The operation binds allocation `id` to `src`.** -/
def BindsTo (p : Plane) (id : UInt32) (src : AddrPort) : PlaneEvent → Prop
  | .armPending i uri nonce now => i = id ∧ p.Drains id uri nonce now src
  | .datagram buf from_ _ now' =>
    from_ = src ∧ ∃ nonce, Packet.decode buf = .punch id nonce ∧ p.Binds id nonce now'
  | _ => False

/-- **The operation releases allocation `id`.** -/
def Releases (p : Plane) (id : UInt32) : PlaneEvent → Prop
  | .forget i => i = id
  | .forgetAgent uri order => uri ≠ [] ∧ id ∈ order
  | .gcOnce now _ _ _ => ∃ e, p.byAlloc.get id = some e ∧ e.lastSeen < now - p.idleTTL
  | _ => False

/-! ## The entry of an allocation after each operation -/

theorem rebind_byAlloc_of_ne {id : UInt32} (h : j ≠ id) (entry : AllocEntry)
    (src : AddrPort) (now : Time) :
    (p.rebind id entry src now).byAlloc.get j = p.byAlloc.get j := by
  rw [rebind_byAlloc, GoMap.get_set_of_ne _ _ h]

theorem armPending_byAlloc_of_ne {id : UInt32} (h : j ≠ id) (uri : GoString)
    (nonce : Nonce) (now : Time) :
    (p.armPending id uri nonce now).fst.byAlloc.get j = p.byAlloc.get j := by
  rcases armPending_cases p id uri nonce now with
    ⟨-, heq⟩ | ⟨entry, -, -, -, -, heq | ⟨q, -, -, -, heq⟩⟩
  · rw [heq]
  · rw [heq]
  · rw [heq]
    exact rebind_byAlloc_of_ne h entry q.src now

theorem register_byAlloc_of_ne {id : UInt32} (h : j ≠ id) (src : AddrPort)
    (nonce : Nonce) (now now' : Time) :
    (p.register id src nonce now now').byAlloc.get j = p.byAlloc.get j := by
  rcases register_cases p id src nonce now now' with
    ⟨-, heq⟩ | heq | heq | ⟨pend, entry, -, -, -, -, heq⟩
  · rw [heq]
  · rw [heq]
  · rw [heq]
  · rw [heq]
    exact rebind_byAlloc_of_ne h entry src now

theorem forget_byAlloc (p : Plane) (id k : UInt32) :
    (p.forget id).byAlloc.get k = if k = id then none else p.byAlloc.get k := by
  unfold forget
  cases he : p.byAlloc.get id with
  | none =>
    by_cases h : k = id
    · rw [if_pos h, h]
      exact he
    · rw [if_neg h]
      rfl
  | some entry => exact GoMap.get_del _ id k

/-- One round of `ForgetAgent` removes one id. -/
theorem forgetAgentRound_byAlloc (acc : Plane × ℕ) (id k : UInt32) :
    (forgetAgentRound acc id).fst.byAlloc.get k
      = if k = id then none else acc.fst.byAlloc.get k := by
  unfold forgetAgentRound
  cases he : acc.fst.byAlloc.get id with
  | none =>
    by_cases h : k = id
    · rw [if_pos h, h, he]
    · rw [if_neg h]
  | some entry => exact GoMap.get_del _ id k

/-- `ForgetAgent` removes the ids of its owner's set. -/
theorem forgetAgent_byAlloc {uri : GoString} {order : List UInt32}
    (ho : p.SetOrder uri order) (k : UInt32) :
    (p.forgetAgent uri order).fst.byAlloc.get k
      = if uri ≠ [] ∧ k ∈ order then none else p.byAlloc.get k := by
  unfold forgetAgent
  by_cases huri : uri = []
  · rw [if_pos huri, if_neg (fun h => h.1 huri)]
  · rw [if_neg huri]
    cases hset : p.byURI.get uri with
    | none =>
      -- the owner has no set, and the order has nothing to visit
      have hempty : order.toFinset = ∅ := by rw [ho.2, hset]; rfl
      rw [if_neg (fun h => ?_)]
      exact (Finset.notMem_empty k) (hempty ▸ List.mem_toFinset.mpr h.2)
    | some ids =>
      refine (GoMap.foldl_clears (fun acc : Plane × ℕ => acc.fst.byAlloc.get k)
        (fun acc id => forgetAgentRound_byAlloc acc id k) order (p, 0)).trans
        (if_congr ?_ rfl rfl)
      simp [huri]

/-- A collection removes an entry last seen before the cutoff. -/
theorem gcOnce_byAlloc {entry : AllocEntry}
    {allocs : List (UInt32 × AllocEntry)} (hallocs : p.byAlloc.RangeOrder allocs)
    (he : p.byAlloc.get j = some entry) (now : Time)
    (pends : List (UInt32 × PendingEntry)) (punches : List (UInt32 × QueuedPunch)) :
    (p.gcOnce now allocs pends punches).byAlloc.get j
      = if entry.lastSeen < now - p.idleTTL then none else some entry := by
  have hround : ∀ (q : Plane) (e : UInt32 × AllocEntry),
      (evictRound (now - p.idleTTL) q e).byAlloc.get j
        = if e.fst = j ∧ e.snd.lastSeen < now - p.idleTTL then none else q.byAlloc.get j := by
    intro q e
    unfold evictRound
    by_cases hidle : e.snd.lastSeen < now - p.idleTTL
    · rw [if_pos hidle]
      exact (GoMap.get_del _ e.fst j).trans (if_congr (by simp [hidle, eq_comm]) rfl rfl)
    · rw [if_neg hidle, if_neg (fun h => hidle h.2)]
  refine (GoMap.foldl_clears (fun q : Plane => q.byAlloc.get j) hround allocs p).trans ?_
  rw [he]
  refine if_congr ⟨?_, fun hidle => ?_⟩ rfl rfl
  · rintro ⟨e, hmem, rfl, hidle⟩
    cases ((hallocs.mem_iff e.fst e.snd).mp hmem).symm.trans he
    exact hidle
  · exact ⟨(j, entry), (hallocs.mem_iff j entry).mpr he, rfl, hidle⟩

/-- A data packet changes an entry at most by marking it seen now. -/
theorem touch_byAlloc {src : AddrPort} {now : Time} {entry : AllocEntry}
    (he : p.byAlloc.get j = some entry) :
    ∃ e, (p.touch src now).byAlloc.get j = some e ∧ e.uri = entry.uri ∧ e.src = entry.src
      ∧ (e.lastSeen = entry.lastSeen ∨ e.lastSeen = now) := by
  unfold Plane.touch
  split
  · exact ⟨entry, he, rfl, rfl, Or.inl rfl⟩
  · split
    · exact ⟨entry, he, rfl, rfl, Or.inl rfl⟩
    · rename_i k _ sender hsender
      rw [GoMap.get_set]
      split_ifs with hk
      · rw [hk] at he
        cases hsender.symm.trans he
        exact ⟨_, rfl, rfl, rfl, Or.inr rfl⟩
      · exact ⟨entry, he, rfl, rfl, Or.inl rfl⟩

end Plane

namespace PlaneState

variable {s s' : PlaneState} {e : PlaneEvent} {id : UInt32}

/-- The clock never goes back. -/
theorem clock_le_of_step (hstep : s.step e = some s') : s.clock ≤ s'.clock := by
  rcases step_cases hstep with
    ⟨uri, now, q, id, -, -, hc, rfl⟩ | ⟨id, uri, nonce, now, -, hc, rfl⟩
    | ⟨buf, src, now, now', id, nonce, -, -, -, hc, hc', rfl⟩
    | ⟨buf, src, now, now', id, payload, -, -, -, hc, hc', rfl⟩ | ⟨-, -, hc, -⟩
  · exact hc
  · exact hc
  · exact hc.trans hc'
  · exact hc.trans hc'
  · exact hc

end PlaneState

namespace Plane

variable {p q : Plane} {clock : Time} {id : UInt32} {entry : AllocEntry} {e : PlaneEvent}

/-- **What an operation, from `p` to `q` at time `clock`, can do to an
allocation**: leave its owner and its address, bind it, or release it. -/
def EntryChange (p q : Plane) (clock : Time) (id : UInt32) (entry : AllocEntry) (e : PlaneEvent) :
    Prop :=
  (∃ entry', q.byAlloc.get id = some entry' ∧ entry'.uri = entry.uri ∧ entry'.src = entry.src
      ∧ (entry'.lastSeen = entry.lastSeen ∨ clock ≤ entry'.lastSeen))
    ∨ (∃ src, p.BindsTo id src e
      ∧ ∃ entry', q.byAlloc.get id = some entry' ∧ entry'.uri = entry.uri ∧ entry'.src = src
        ∧ clock ≤ entry'.lastSeen)
    ∨ (q.byAlloc.get id = none ∧ p.Releases id e)

theorem EntryChange.of_get (h : q.byAlloc.get id = some entry) : EntryChange p q clock id entry e :=
  Or.inl ⟨entry, h, rfl, rfl, Or.inl rfl⟩

theorem EntryChange.armPending {i : UInt32} {uri : GoString} {nonce : Nonce} {now : Time}
    (he : p.byAlloc.get id = some entry) (hclock : clock ≤ now) :
    EntryChange p (p.armPending i uri nonce now).fst clock id entry
      (.armPending i uri nonce now) := by
  rcases armPending_cases p i uri nonce now with
    ⟨-, heq⟩ | ⟨entry₁, he₁, hown, huri, -, heq | ⟨q, hq, hexp, hnonce, heq⟩⟩
  · exact .of_get ((congrArg (fun p => p.byAlloc.get id) heq).trans he)
  · exact .of_get ((congrArg (fun p => p.byAlloc.get id) heq).trans he)
  · by_cases hi : id = i
    · subst hi
      cases he₁.symm.trans he
      refine Or.inr (Or.inl ⟨q.src, ⟨rfl, huri, hown ▸ ownerOf_of_get he, q, hq, hexp, hnonce,
        rfl⟩, ⟨entry.uri, q.src, now⟩, ?_, rfl, rfl, hclock⟩)
      rw [heq, rebind_byAlloc, GoMap.get_set_self]
    · exact .of_get ((armPending_byAlloc_of_ne hi uri nonce now).trans he)

theorem EntryChange.register {buf : List UInt8} {src : AddrPort} {now now' : Time} {i : UInt32}
    {nonce : Nonce} (hdec : Packet.decode buf = .punch i nonce)
    (he : p.byAlloc.get id = some entry) (hclock : clock ≤ now) :
    EntryChange p (p.register i src nonce now now') clock id entry
      (.datagram buf src now now') := by
  by_cases hi : id = i
  · subst hi
    by_cases hb : p.Binds id nonce now'
    · obtain ⟨entry₁, he₁, heq⟩ := hb.register_eq src now
      cases he₁.symm.trans he
      refine Or.inr (Or.inl ⟨src, ⟨rfl, nonce, hdec, hb⟩, ⟨entry.uri, src, now⟩, ?_, rfl, rfl,
        hclock⟩)
      rw [heq]
      show (p.rebind id entry src now).byAlloc.get id = _
      rw [rebind_byAlloc, GoMap.get_set_self]
    · refine .of_get ?_
      rcases register_cases p id src nonce now now' with
        ⟨-, heq⟩ | heq | heq | ⟨pend, entry₁, hp, hexp, hnonce, he₁, -⟩
      · rw [heq]
        exact he
      · rw [heq]
        exact he
      · rw [heq]
        exact he
      · exact absurd ⟨⟨entry₁, he₁⟩, pend, hp, hexp, hnonce⟩ hb
  · exact .of_get ((register_byAlloc_of_ne hi src nonce now now').trans he)

/-- An allocation that is released under a condition. -/
theorem EntryChange.of_ite {c : Prop} [Decidable c]
    (hget : q.byAlloc.get id = if c then none else some entry) (hc : c → p.Releases id e) :
    EntryChange p q clock id entry e := by
  by_cases h : c
  · exact Or.inr (Or.inr ⟨hget.trans (if_pos h), hc h⟩)
  · exact .of_get (hget.trans (if_neg h))

end Plane

namespace PlaneState

variable {s s' : PlaneState} {e : PlaneEvent} {id : UInt32}

/-- **What an operation can do to an allocation.** -/
theorem entry_cases {entry : AllocEntry} (he : s.plane.byAlloc.get id = some entry)
    (hfresh : ∀ uri now, e = .allocate uri now → Plane.nextAllocID s.plane.nextID ≠ id)
    (hstep : s.step e = some s') : s.plane.EntryChange s'.plane s.clock id entry e := by
  cases e with
  | allocate uri now =>
    simp only [step] at hstep
    split_ifs at hstep
    obtain ⟨⟨q, k⟩, hq, rfl⟩ := Option.map_eq_some_iff.mp hstep
    obtain ⟨hk, -, -, hby, -⟩ := Plane.allocate_byAlloc hq
    refine .of_get ?_
    show q.byAlloc.get id = some entry
    rw [hby, hk, GoMap.get_set_of_ne _ _ (hfresh uri now rfl).symm, he]
  | armPending i uri nonce now =>
    simp only [step] at hstep
    split_ifs at hstep with hclock
    cases hstep
    exact .armPending he hclock
  | datagram buf src now now' =>
    simp only [step, Plane.recv] at hstep
    split_ifs at hstep with hguard
    cases hstep
    cases hdec : Packet.decode buf with
    | punch i nonce => exact .register hdec he hguard.1
    | data i payload =>
      obtain ⟨e', he', huri, hsrc, hlast⟩ := Plane.touch_byAlloc (j := id) he
      refine Or.inl ⟨e', he', huri, hsrc, hlast.imp_right fun h => ?_⟩
      exact hguard.1.trans (le_of_eq h.symm)
    | short => exact .of_get he
    | badRegistration => exact .of_get he
  | forget i =>
    cases hstep
    have hget := Plane.forget_byAlloc s.plane i id
    rw [he] at hget
    exact .of_ite hget Eq.symm
  | forgetAgent uri order =>
    simp only [step] at hstep
    split_ifs at hstep with ho
    cases hstep
    have hget := Plane.forgetAgent_byAlloc ho id
    rw [he] at hget
    exact .of_ite hget fun h => h
  | gcOnce now allocs pends punches =>
    simp only [step] at hstep
    split_ifs at hstep with hguard
    cases hstep
    exact .of_ite (Plane.gcOnce_byAlloc hguard.2.1 he now pends punches)
      fun hidle => ⟨entry, he, hidle⟩

/-- An allocation that was not there has just been issued, and has no
address. -/
theorem src_of_new {entry : AllocEntry} (hnone : s.plane.byAlloc.get id = none)
    (hstep : s.step e = some s') (he : s'.plane.byAlloc.get id = some entry) :
    entry.src = AddrPort.zero := by
  -- an operation that changes no owner issues nothing
  have hsame : s'.plane.ownerOf = s.plane.ownerOf → entry.src = AddrPort.zero := by
    intro hown
    have hnone' := Plane.ownerOf_eq_none.mp
      ((congrFun hown id).trans (Plane.ownerOf_eq_none.mpr hnone))
    exact nomatch hnone'.symm.trans he
  rcases step_cases hstep with
    ⟨uri, now, q, k, -, ha, -, rfl⟩ | ⟨k, uri, nonce, now, -, -, rfl⟩
    | ⟨buf, src, now, now', k, nonce, -, -, -, -, -, rfl⟩
    | ⟨buf, src, now, now', k, payload, -, -, -, -, -, rfl⟩ | ⟨-, hsh, -, -⟩
  · obtain ⟨-, -, -, hby, -⟩ := Plane.allocate_byAlloc ha
    rw [show q.byAlloc.get id = _ from congrArg (GoMap.get · id) hby, GoMap.get_set] at he
    split_ifs at he
    · cases he
      rfl
    · exact nomatch hnone.symm.trans he
  · exact hsame (Plane.armPending_ownerOf s.plane k uri nonce now).1
  · exact hsame (Plane.register_ownerOf s.plane k src nonce now now').1
  · exact hsame (Plane.touch_ownerOf s.plane src now).1
  · exact nomatch hnone.symm.trans (hsh.byAlloc id entry he)

end PlaneState

/-! ## The history of the handshake -/

/-- One operation of a run of the plane. -/
abbrev PlaneTransition := Transition PlaneState PlaneEvent

/-- A successful `ArmPending(id, uri, nonce)` at time `τ`. -/
def ArmsWith (id : UInt32) (uri : GoString) (nonce : Nonce) (τ : Time)
    (t : PlaneTransition) : Prop :=
  t.ev = .armPending id uri nonce τ ∧ (t.pre.plane.armPending id uri nonce τ).snd = .ok ()

/-- A successful `ArmPending` for `id`. -/
def Arms (id : UInt32) (t : PlaneTransition) : Prop :=
  ∃ uri nonce τ, ArmsWith id uri nonce τ t

/-- A punch for `id` from `src` with `nonce`, received at time `τ`. -/
def Punches (id : UInt32) (src : AddrPort) (nonce : Nonce) (τ : Time)
    (t : PlaneTransition) : Prop :=
  ∃ buf τ', t.ev = .datagram buf src τ τ' ∧ Packet.decode buf = .punch id nonce

/-- The address of `id` changes to `src`. -/
def Moves (id : UInt32) (src : AddrPort) (t : PlaneTransition) : Prop :=
  ∃ a, t.pre.plane.lookup id = some a ∧ t.post.plane.lookup id = some src ∧ a ≠ src

/-- **The arming at position `k` authorises the last step of `h` to bind `id`
to `src`**: it is the last successful one of the owner, the allocation has been
live under that owner since, a punch from `src` carried the same nonce, the two
were at most `ttl` apart, and the last step is the later of them. -/
def Authorises (ttl : Time) (h : List PlaneTransition) (k : ℕ) (id : UInt32)
    (src : AddrPort) : Prop :=
  ∃ uri nonce τ j τ', At h k (ArmsWith id uri nonce τ)
    ∧ Since h k (fun t => t.pre.plane.ownerOf id = some uri)
    ∧ Since h (k + 1) (fun t => ¬ Arms id t)
    ∧ At h j (Punches id src nonce τ')
    ∧ (k + 1 = h.length ∨ j + 1 = h.length)
    ∧ τ ≤ τ' + ttl ∧ τ' ≤ τ + ttl

/-- **Every waiting row and every address in use comes from a step of the
run.** -/
structure HandshakeHistory (ttl : Time) (h : List PlaneTransition) (s : PlaneState) :
    Prop where
  ttl_eq : s.plane.ttl = ttl
  /-- An armed nonce is the last one its owner armed, and has bound nothing. -/
  pending : ∀ id pend, s.plane.pending.get id = some pend →
    ∃ k τ, At h k (ArmsWith id pend.uri pend.nonce τ) ∧ pend.expires = τ + ttl
      ∧ τ ≤ s.clock
      ∧ Since h k (fun t => t.pre.plane.ownerOf id = some pend.uri)
      ∧ Since h (k + 1) (fun t => ¬ Arms id t)
      ∧ Since h k (fun t => ∀ src, ¬ Moves id src t)
  /-- A queued punch has been received. -/
  queued : ∀ id q, s.plane.queued.get id = some q →
    ∃ j τ, At h j (Punches id q.src q.nonce τ) ∧ q.expires = τ + ttl ∧ τ ≤ s.clock
  /-- An allocation with an address was moved there, and has been there since. -/
  bound : ∀ id a, s.plane.lookup id = some a → a = AddrPort.zero
    ∨ ∃ i, At h i (Moves id a) ∧ Since h (i + 1) (fun t => t.post.plane.lookup id = some a)

namespace PlaneState

variable {s s' : PlaneState} {e : PlaneEvent} {id : UInt32}

/-- The timeout of the handshake never changes. -/
theorem ttl_step (hstep : s.step e = some s') : s'.plane.ttl = s.plane.ttl := by
  have hcongr : s'.plane.pendingTTL = s.plane.pendingTTL → s'.plane.ttl = s.plane.ttl := by
    intro h
    unfold Plane.ttl
    rw [h]
  apply hcongr
  rcases step_cases hstep with
    ⟨uri, now, q, k, -, ha, -, rfl⟩ | ⟨k, uri, nonce, now, -, -, rfl⟩
    | ⟨buf, src, now, now', k, nonce, -, -, -, -, -, rfl⟩
    | ⟨buf, src, now, now', k, payload, -, -, -, -, -, rfl⟩ | ⟨-, hsh, -, -⟩
  · exact (Plane.allocate_byAlloc ha).2.2.1
  · exact Plane.armPending_pendingTTL s.plane k uri nonce now
  · exact Plane.register_pendingTTL s.plane k src nonce now now'
  · exact (Plane.touch_rooms s.plane src now).2.2
  · exact hsh.pendingTTL

/-- Binding an allocation uses its armed nonce up. -/
theorem pending_of_bindsTo {src : AddrPort} (hT : s.plane.TableInv)
    (hb : s.plane.BindsTo id src e) (hstep : s.step e = some s') :
    s'.plane.pending.get id = none := by
  cases e with
  | armPending i uri nonce now =>
    obtain ⟨rfl, hd⟩ := hb
    simp only [step] at hstep
    split_ifs at hstep
    cases hstep
    obtain ⟨entry, -, heq⟩ := hd.armPending_eq
    obtain ⟨-, -, q, hq, -⟩ := hd
    show (s.plane.armPending i uri nonce now).fst.pending.get i = none
    rw [heq, Plane.rebind_pending]
    -- a nonce cannot be armed while a punch is queued
    exact (hT.exclusive i).resolve_right (fun h => Option.some_ne_none q (hq.symm.trans h))
  | datagram buf src' now now' =>
    obtain ⟨rfl, nonce, hdec, hbinds⟩ := hb
    simp only [step, Plane.recv, hdec] at hstep
    split_ifs at hstep
    cases hstep
    obtain ⟨entry, -, heq⟩ := hbinds.register_eq src' now
    show (s.plane.register id src' nonce now now').pending.get id = none
    rw [heq]
    exact GoMap.get_del_self _ _
  | _ => exact hb.elim

/-- **Where an armed nonce comes from**: the operation has just armed it, or it
was there before an operation that does not arm its allocation. -/
theorem pending_step {pend : PendingEntry} (hT : s.plane.TableInv)
    (hstep : s.step e = some s') (hp : s'.plane.pending.get id = some pend) :
    (∃ now, ArmsWith id pend.uri pend.nonce now ⟨s, e, s'⟩
        ∧ pend.expires = now + s.plane.ttl ∧ now ≤ s'.clock)
    ∨ (s.plane.pending.get id = some pend ∧ ¬ Arms id ⟨s, e, s'⟩) := by
  by_cases harm : Arms id ⟨s, e, s'⟩
  · obtain ⟨uri, nonce, now, rfl, hok⟩ := harm
    refine Or.inl ⟨now, ?_⟩
    have hb : ∀ src, ¬ s.plane.BindsTo id src (.armPending id uri nonce now) := fun src hb =>
      nomatch (pending_of_bindsTo hT hb hstep).symm.trans hp
    simp only [step] at hstep
    split_ifs at hstep
    cases hstep
    rcases Plane.armPending_cases s.plane id uri nonce now with
      ⟨⟨err, herr⟩, -⟩ | ⟨entry, he, hown, huri, -, heq | ⟨q, hq, hexp, hnonce, -⟩⟩
    · cases hok.symm.trans herr
    · rw [heq] at hp
      cases (GoMap.get_set_self _ _ _).symm.trans hp
      exact ⟨⟨rfl, hok⟩, rfl, le_rfl⟩
    · exact absurd
        ⟨rfl, huri, hown ▸ Plane.ownerOf_of_get he, q, hq, hexp, hnonce, rfl⟩ (hb q.src)
  · refine Or.inr ⟨?_, harm⟩
    rcases step_cases hstep with
      ⟨uri, now, q, k, -, ha, -, rfl⟩ | ⟨k, uri, nonce, now, rfl, -, rfl⟩
      | ⟨buf, src, now, now', k, nonce, -, -, -, -, -, rfl⟩
      | ⟨buf, src, now, now', k, payload, -, -, -, -, -, rfl⟩ | ⟨-, hsh, -, -⟩
    · exact (Plane.allocate_byAlloc ha).2.2.2.2.2.1 ▸ hp
    · rcases Plane.armPending_cases s.plane k uri nonce now with
        ⟨-, heq⟩ | ⟨entry, -, -, -, hok, heq | ⟨q, -, -, -, heq⟩⟩
      · exact heq ▸ hp
      · have hk : id ≠ k := by
          rintro rfl
          exact harm ⟨uri, nonce, now, rfl, hok⟩
        rw [heq] at hp
        exact (GoMap.get_set_of_ne _ _ hk).symm.trans hp
      · rw [heq, Plane.rebind_pending] at hp
        exact hp
    · rcases Plane.register_cases s.plane k src nonce now now' with
        ⟨-, heq⟩ | heq | heq | ⟨pend', entry, -, -, -, -, heq⟩
      · rw [heq] at hp
        exact hp
      · rw [heq] at hp
        exact (GoMap.of_get_del hp).1
      · exact heq ▸ hp
      · rw [heq] at hp
        exact (GoMap.of_get_del hp).1
    · exact (Plane.touch_rooms s.plane src now).1 ▸ hp
    · exact hsh.pending id pend hp

/-- Where a queued punch comes from: the operation has just received it, or it
was there. -/
theorem queued_step {q : QueuedPunch} (hstep : s.step e = some s')
    (hq : s'.plane.queued.get id = some q) :
    (∃ now, Punches id q.src q.nonce now ⟨s, e, s'⟩ ∧ q.expires = now + s.plane.ttl
        ∧ now ≤ s'.clock)
    ∨ s.plane.queued.get id = some q := by
  rcases step_cases hstep with
    ⟨uri, now, p, k, -, ha, -, rfl⟩ | ⟨k, uri, nonce, now, rfl, -, rfl⟩
    | ⟨buf, src, now, now', k, nonce, rfl, hdec, -, -, hnow, rfl⟩
    | ⟨buf, src, now, now', k, payload, -, -, -, -, -, rfl⟩ | ⟨-, hsh, -, -⟩
  · exact Or.inr ((Plane.allocate_byAlloc ha).2.2.2.2.2.2 ▸ hq)
  · rcases Plane.armPending_cases s.plane k uri nonce now with
      ⟨-, heq⟩ | ⟨entry, -, -, -, hok, heq | ⟨q', -, -, -, heq⟩⟩
    · exact Or.inr (heq ▸ hq)
    · rw [heq] at hq
      exact Or.inr (GoMap.of_get_del hq).1
    · rw [heq, Plane.rebind_queued] at hq
      exact Or.inr (GoMap.of_get_del hq).1
  · rcases Plane.register_cases s.plane k src nonce now now' with
      ⟨-, heq⟩ | heq | heq | ⟨pend', entry, -, -, -, -, heq⟩
    · rw [heq] at hq
      by_cases hk : id = k
      · subst hk
        cases (GoMap.get_set_self _ _ _).symm.trans hq
        exact Or.inl ⟨now, ⟨buf, now', rfl, hdec⟩, rfl, hnow⟩
      · exact Or.inr ((GoMap.get_set_of_ne _ _ hk).symm.trans hq)
    · rw [heq] at hq
      exact Or.inr hq
    · exact Or.inr (heq ▸ hq)
    · rw [heq] at hq
      exact Or.inr ((Plane.rebind_queued s.plane k entry src now) ▸ hq)
  · exact Or.inr ((Plane.touch_rooms s.plane src now).2.1 ▸ hq)
  · exact Or.inr (hsh.queued id q hq)

end PlaneState

/-! ## Runs -/

section Runs

variable {ttl : Time} {h : List PlaneTransition} {s s' : PlaneState} {e : PlaneEvent}
  {id : UInt32} {src : AddrPort}

/-- A step that changes an address binds it. -/
theorem Moves.bindsTo (hm : Moves id src ⟨s, e, s'⟩)
    (hfresh : s.plane.byAlloc.get (Plane.nextAllocID s.plane.nextID) = none)
    (hstep : s.step e = some s') : s.plane.BindsTo id src e := by
  obtain ⟨a, ha, hsrc, hne⟩ := hm
  obtain ⟨entry, he, rfl⟩ := Option.map_eq_some_iff.mp ha
  obtain ⟨entry', he', rfl⟩ := Option.map_eq_some_iff.mp hsrc
  have hid : Plane.nextAllocID s.plane.nextID ≠ id :=
    fun hid => nomatch (hid ▸ hfresh).symm.trans he
  rcases PlaneState.entry_cases he (fun _ _ _ => hid) hstep with
    ⟨e₁, he₁, -, hsame, -⟩ | ⟨src, hb, e₁, he₁, -, rfl, -⟩ | ⟨hnone, -⟩
  · cases he'.symm.trans he₁
    exact absurd hsame.symm hne
  · cases he'.symm.trans he₁
    exact hb
  · exact nomatch hnone.symm.trans he'

/-- **One step keeps the history of the handshake.** -/
theorem HandshakeHistory.step (H : HandshakeHistory ttl h s) (hT : s.plane.TableInv)
    (hfresh : s.plane.byAlloc.get (Plane.nextAllocID s.plane.nextID) = none)
    (hstep : s.step e = some s') : HandshakeHistory ttl (h ++ [⟨s, e, s'⟩]) s' := by
  have hclock := PlaneState.clock_le_of_step hstep
  refine ⟨(PlaneState.ttl_step hstep).trans H.ttl_eq, fun id pend hp => ?_, fun id q hq => ?_,
    fun id a ha => ?_⟩
  · -- a row that binds does not survive the step
    have hstay : ∀ src, ¬ Moves id src ⟨s, e, s'⟩ := fun src hm =>
      nomatch (PlaneState.pending_of_bindsTo hT (hm.bindsTo hfresh hstep) hstep).symm.trans hp
    rcases PlaneState.pending_step hT hstep hp with ⟨now, harm, hexp, hle⟩ | ⟨hp₀, hnarm⟩
    · have hown : s.plane.ownerOf id = some pend.uri := by
        obtain ⟨rfl, hok⟩ := harm
        rcases Plane.armPending_cases s.plane id pend.uri pend.nonce now with
          ⟨⟨err, herr⟩, -⟩ | ⟨entry, he, hown, -⟩
        · exact nomatch hok.symm.trans herr
        · exact hown ▸ Plane.ownerOf_of_get he
      exact ⟨h.length, now, at_length harm, H.ttl_eq ▸ hexp, hle, since_length hown,
        since_of_length_le (by simp), since_length hstay⟩
    · obtain ⟨k, τ, harm, hexp, hle, hown, hlast, hunused⟩ := H.pending id pend hp₀
      exact ⟨k, τ, harm.snoc _, hexp, hle.trans hclock, hown.snoc (hT.pending id pend hp₀),
        hlast.snoc hnarm, hunused.snoc hstay⟩
  · rcases PlaneState.queued_step hstep hq with ⟨now, hpunch, hexp, hle⟩ | hq₀
    · exact ⟨h.length, now, at_length hpunch, H.ttl_eq ▸ hexp, hle⟩
    · obtain ⟨j, τ, hpunch, hexp, hle⟩ := H.queued id q hq₀
      exact ⟨j, τ, hpunch.snoc _, hexp, hle.trans hclock⟩
  · cases hlook : s.plane.lookup id with
    | none =>
      obtain ⟨entry, he, rfl⟩ := Option.map_eq_some_iff.mp ha
      exact Or.inl (PlaneState.src_of_new (Option.map_eq_none_iff.mp hlook) hstep he)
    | some a₀ =>
      by_cases hsame : a₀ = a
      · rw [hsame] at hlook
        refine (H.bound id a hlook).imp_right ?_
        rintro ⟨i, hm, hsince⟩
        exact ⟨i, hm.snoc _, hsince.snoc ha⟩
      · exact Or.inr ⟨h.length, at_length ⟨a₀, hlook, ha, hsame⟩, since_of_length_le (by simp)⟩

/-- **Every binding is authorised**, by an arming that has bound nothing
before. -/
theorem HandshakeHistory.authorises (H : HandshakeHistory ttl h s)
    (hT : s.plane.TableInv) (hb : s.plane.BindsTo id src e) (hstep : s.step e = some s') :
    ∃ k, Authorises ttl (h ++ [⟨s, e, s'⟩]) k id src
      ∧ Since h k (fun t => ∀ src, ¬ Moves id src t) := by
  cases e with
  | armPending i uri nonce now =>
    obtain ⟨rfl, hd⟩ := hb
    obtain ⟨entry, -, heq⟩ := hd.armPending_eq
    obtain ⟨-, hown, q, hq, hexp, rfl, rfl⟩ := hd
    obtain ⟨j, τ, hpunch, hexp', hle⟩ := H.queued i q hq
    have hclock : s.clock ≤ now := by
      simp only [PlaneState.step] at hstep
      split_ifs at hstep with hclock
      exact hclock
    have hok : ArmsWith i uri q.nonce now ⟨s, .armPending i uri q.nonce now, s'⟩ :=
      ⟨rfl, congrArg Prod.snd heq⟩
    refine ⟨h.length, ⟨uri, q.nonce, now, j, τ, at_length hok, since_length hown,
      since_of_length_le (by simp), hpunch.snoc _, Or.inl (by simp), ?_, ?_⟩,
      since_of_length_le le_rfl⟩ <;> linarith
  | datagram buf src' now now' =>
    obtain ⟨rfl, nonce, hdec, -, pend, hp, hexp, rfl⟩ := hb
    obtain ⟨k, τ, harm, hexp', hle, hown, hlast, hunused⟩ := H.pending id pend hp
    have hclock : s.clock ≤ now ∧ now ≤ now' := by
      simp only [PlaneState.step] at hstep
      split_ifs at hstep with hguard
      exact ⟨hguard.1, hguard.2.1⟩
    have hnoarm : ¬ Arms id ⟨s, .datagram buf src' now now', s'⟩ := by
      rintro ⟨uri, nonce, now, harm, -⟩
      cases harm
    refine ⟨k, ⟨pend.uri, pend.nonce, τ, h.length, now, harm.snoc _, hown.snoc ?_,
      hlast.snoc hnoarm, at_length ⟨buf, now', rfl, hdec⟩, Or.inr (by simp), ?_, ?_⟩, hunused⟩
    · exact hT.pending id pend hp
    · linarith
    · linarith
  | _ => exact hb.elim

/-- **The history of the handshake along a whole run.** -/
theorem handshakeHistory_of_exec {idleTTL pendingTTL start : Time}
    (hx : (planeMachine idleTTL pendingTTL start).Exec h s)
    (hn : allocCalls h < 2 ^ 32 - 1) :
    HandshakeHistory (Plane.newPlane idleTTL pendingTTL).ttl h s := by
  induction hx with
  | nil => exact ⟨rfl, nofun, nofun, nofun⟩
  | @snoc h s s' e hx hstep ih =>
    rw [allocCalls_snoc] at hn
    have hn' : allocCalls h < 2 ^ 32 - 1 := by omega
    obtain ⟨hT, -, hI⟩ := plane_inv_of_exec hx hn'
    exact (ih hn').step hT (hI.fresh (by omega)) hstep

/-- A run makes no fewer `Allocate` calls than a part of it. -/
theorem allocCalls_le_append (h h' : List PlaneTransition) :
    allocCalls h ≤ allocCalls (h ++ h') := by
  unfold allocCalls
  rw [List.countP_append]
  exact Nat.le_add_right _ _

/-- What the plane sends is what it was given to send, to the address of the
allocation named in front. -/
theorem Plane.recv_emits {p : Plane} {buf payload : List UInt8} {dst : AddrPort}
    {now now' : Time} (hr : (p.recv buf src now now').snd = some (dst, payload)) :
    ∃ b₀ b₁ b₂ b₃, buf = b₀ :: b₁ :: b₂ :: b₃ :: payload
      ∧ p.lookup (beUint32 b₀ b₁ b₂ b₃) = some dst ∧ dst.IsValid := by
  unfold Plane.recv at hr
  cases hdec : Packet.decode buf with
  | data peerAlloc payload' =>
    rw [hdec] at hr
    obtain ⟨entry, he, hw⟩ := Option.bind_eq_some_iff.mp hr
    unfold Plane.writeTo at hw
    split_ifs at hw with hv
    cases hw
    obtain ⟨b₀, b₁, b₂, b₃, hbuf, hid⟩ := Packet.of_decode_data hdec
    exact ⟨b₀, b₁, b₂, b₃, hbuf, hid ▸ Plane.lookup_of_get he, hv⟩
  | _ =>
    rw [hdec] at hr
    cases hr

section Bindings

variable {idleTTL pendingTTL start : Time} {h₁ h₂ h₁' h₂' : List PlaneTransition}
  {t t' : PlaneTransition}

/-- What is known before each step of a run. -/
theorem history_before (hx : (planeMachine idleTTL pendingTTL start).Exec (h₁ ++ t :: h₂) s)
    (hn : allocCalls (h₁ ++ t :: h₂) < 2 ^ 32 - 1) :
    HandshakeHistory (Plane.newPlane idleTTL pendingTTL).ttl h₁ t.pre ∧ t.pre.plane.TableInv
      ∧ t.pre.plane.byAlloc.get (Plane.nextAllocID t.pre.plane.nextID) = none
      ∧ t.pre.step t.ev = some t.post := by
  obtain ⟨hx₁, hstep⟩ := hx.of_append
  have hn₁ := (allocCalls_le_append h₁ (t :: h₂)).trans_lt hn
  obtain ⟨hT, -, hI⟩ := plane_inv_of_exec hx₁ hn₁
  exact ⟨handshakeHistory_of_exec hx₁ hn₁, hT, hI.fresh (by omega), hstep⟩

/-- Every change of an address is authorised, by an arming that has changed
none before. -/
theorem authorises_of_moves
    (hx : (planeMachine idleTTL pendingTTL start).Exec (h₁ ++ t :: h₂) s)
    (hn : allocCalls (h₁ ++ t :: h₂) < 2 ^ 32 - 1) (hm : Moves id src t) :
    ∃ k, Authorises (Plane.newPlane idleTTL pendingTTL).ttl (h₁ ++ [t]) k id src
      ∧ Since h₁ k (fun u => ∀ src, ¬ Moves id src u) := by
  obtain ⟨H, hT, hfresh, hstep⟩ := history_before hx hn
  exact H.authorises hT (hm.bindsTo hfresh hstep) hstep

/-- **No arming authorises two changes.** -/
theorem not_authorises_twice (hx : (planeMachine idleTTL pendingTTL start).Exec h s)
    (hn : allocCalls h < 2 ^ 32 - 1) {k : ℕ} {id' : UInt32} {src' : AddrPort}
    (hh : h = h₁ ++ t :: h₂) (hh' : h = h₁' ++ t' :: h₂') (hlt : h₁.length < h₁'.length)
    (hm : Moves id src t) (hm' : Moves id' src' t')
    (ha : Authorises (Plane.newPlane idleTTL pendingTTL).ttl (h₁ ++ [t]) k id src)
    (ha' : Authorises (Plane.newPlane idleTTL pendingTTL).ttl (h₁' ++ [t']) k id' src') :
    False := by
  obtain ⟨k', ⟨uri₁, n₁, τ₁, _, _, harm₁, -, hlast₁, -⟩, hunused⟩ :=
    authorises_of_moves (hh' ▸ hx) (hh' ▸ hn) hm'
  obtain ⟨uri, n, τ, _, _, harm, -⟩ := ha
  obtain ⟨uri', n', τ', _, _, harm', -, hlast', -⟩ := ha'
  have hk : k' = k := At.unique (P := Arms id')
    (harm₁.imp (fun _ h => ⟨uri₁, n₁, τ₁, h⟩)) hlast₁ (harm'.imp (fun _ h => ⟨uri', n', τ', h⟩))
    hlast'
  have hle : k ≤ h₁.length := by simpa [Nat.lt_succ_iff] using harm.lt
  -- the two changes are of one allocation, since one arming names it
  have hid : id = id' := by
    obtain ⟨u, hu, hev, -⟩ := harm.append h₂
    obtain ⟨u', hu', hev', -⟩ := harm'.append h₂'
    rw [List.append_assoc, List.singleton_append] at hu hu'
    rw [← hh] at hu
    rw [← hh', hu] at hu'
    cases hu'
    cases hev.symm.trans hev'
    rfl
  have hget : h₁'[h₁.length]? = some t := by
    have happ : (h₁' ++ t' :: h₂')[h₁.length]? = h₁'[h₁.length]? := List.getElem?_append_left hlt
    rw [← happ, ← hh', hh]
    simp
  exact hunused h₁.length t (hk ▸ hle) hget src (hid ▸ hm)

end Bindings

/-- **Bindings are authentic**, in every run with fewer than `2 ^ 32 - 1`
allocations. Whenever the address of an allocation changes, the last successful
arming of its owner and a punch from the new address with the same nonce
authorise it; an operation that does not change it leaves it, or releases its
allocation; a datagram is sent on with its payload, to the address its
allocation was moved to and has had since; and no arming authorises two
changes. -/
theorem binding_authentic {idleTTL pendingTTL start : Time}
    (hx : (planeMachine idleTTL pendingTTL start).Exec h s)
    (hn : allocCalls h < 2 ^ 32 - 1) :
    (∀ h₁ t h₂, h = h₁ ++ t :: h₂ →
      (∀ id src, Moves id src t →
        ∃ k, Authorises (Plane.newPlane idleTTL pendingTTL).ttl (h₁ ++ [t]) k id src)
      ∧ (∀ id a, t.pre.plane.lookup id = some a →
        t.post.plane.lookup id = some a ∨ (∃ src, Moves id src t)
          ∨ (t.post.plane.lookup id = none ∧ t.pre.plane.Releases id t.ev))
      ∧ (∀ buf src now now' dst payload, t.ev = .datagram buf src now now' →
        (t.pre.plane.recv buf src now now').snd = some (dst, payload) →
        ∃ b₀ b₁ b₂ b₃, buf = b₀ :: b₁ :: b₂ :: b₃ :: payload
          ∧ t.pre.plane.lookup (beUint32 b₀ b₁ b₂ b₃) = some dst
          ∧ ∃ i, At h₁ i (Moves (beUint32 b₀ b₁ b₂ b₃) dst)
            ∧ Since h₁ (i + 1)
              (fun u => u.post.plane.lookup (beUint32 b₀ b₁ b₂ b₃) = some dst)))
    ∧ ∀ h₁ t h₂ h₁' t' h₂' k id src id' src', h = h₁ ++ t :: h₂ → h = h₁' ++ t' :: h₂' →
      Moves id src t → Moves id' src' t' →
      Authorises (Plane.newPlane idleTTL pendingTTL).ttl (h₁ ++ [t]) k id src →
      Authorises (Plane.newPlane idleTTL pendingTTL).ttl (h₁' ++ [t']) k id' src' →
      h₁.length = h₁'.length := by
  refine ⟨?_, ?_⟩
  · rintro h₁ t h₂ rfl
    obtain ⟨H, hT, hfresh, hstep⟩ := history_before hx hn
    refine ⟨fun id src hm => (authorises_of_moves hx hn hm).imp (fun _ h => h.1),
      fun id a ha => ?_, fun buf src now now' dst payload _ hr => ?_⟩
    · obtain ⟨entry, he, rfl⟩ := Option.map_eq_some_iff.mp ha
      have hid : Plane.nextAllocID t.pre.plane.nextID ≠ id :=
        fun hid => nomatch (hid ▸ hfresh).symm.trans he
      rcases PlaneState.entry_cases he (fun _ _ _ => hid) hstep with
        ⟨e₁, he₁, -, hsame, -⟩ | ⟨src, -, e₁, he₁, -, rfl, -⟩ | ⟨hnone, hrel⟩
      · exact Or.inl (hsame ▸ Plane.lookup_of_get he₁)
      · by_cases hsame : entry.src = e₁.src
        · exact Or.inl (hsame ▸ Plane.lookup_of_get he₁)
        · exact Or.inr (Or.inl ⟨e₁.src, entry.src, ha, Plane.lookup_of_get he₁, hsame⟩)
      · refine Or.inr (Or.inr ⟨?_, hrel⟩)
        unfold Plane.lookup
        rw [hnone]
        rfl
    · obtain ⟨b₀, b₁, b₂, b₃, hbuf, hlook, hv⟩ := Plane.recv_emits hr
      refine ⟨b₀, b₁, b₂, b₃, hbuf, hlook, (H.bound _ dst hlook).resolve_left ?_⟩
      rintro rfl
      exact AddrPort.not_isValid_zero hv
  · intro h₁ t h₂ h₁' t' h₂' k id src id' src' hh hh' hm hm' ha ha'
    rcases Nat.lt_trichotomy h₁.length h₁'.length with hlt | heq | hgt
    · exact (not_authorises_twice hx hn hh hh' hlt hm hm' ha ha').elim
    · exact heq
    · exact (not_authorises_twice hx hn hh' hh hgt hm' hm ha' ha).elim

end Runs

/-- The last punch of a handshake, on the default timeouts, and what authorises
it. -/
theorem binding_of_handshake :
    ∃ h t s, (planeMachine defaultAllocIdleTTL defaultPendingTTL 0).Exec (h ++ [t]) s
      ∧ allocCalls (h ++ [t]) < 2 ^ 32 - 1 ∧ Moves 1 (loopback 4000) t
      ∧ ∃ k, Authorises defaultPendingTTL (h ++ [t]) k 1 (loopback 4000) := by
  obtain ⟨h, hx, hev⟩ := Machine.exec_of_run
    (planeMachine defaultAllocIdleTTL defaultPendingTTL 0)
    [.allocate (go "c1") 1, .armPending 1 (go "c1") (repeatNonce 7) 2] rfl
  have hx' := hx.snoc (e := .datagram (punchBytes 1 7) (loopback 4000) 3 4) rfl
  have hn : ∀ u : PlaneTransition, u.ev.isAllocate = false →
      allocCalls (h ++ [u]) < 2 ^ 32 - 1 := by
    intro u hu
    rw [allocCalls_snoc, allocCalls_eq, hev, hu]
    decide
  exact ⟨h, _, _, hx', hn _ rfl, ⟨AddrPort.zero, rfl, rfl, by decide⟩,
    ((binding_authentic hx' (hn _ rfl)).1 h _ [] rfl).1 1 (loopback 4000)
      ⟨AddrPort.zero, rfl, rfl, by decide⟩⟩
