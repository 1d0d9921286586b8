import OutRelay.PlaneTwins

/-!
# The handshake in its two orders, and the punches of strangers

An agent registers an allocation with two messages that race by design: a
control frame, which arms a nonce, and a UDP punch, which carries it. The plane
has a waiting room for whichever comes first. This module asks of the two rooms
what they are for.

* *The order makes no difference.* It does not, from a plane that has no nonce
  armed for the allocation. From one that has – a leftover of an earlier attempt,
  expired or not – the arming replaces it, but an early punch is compared with
  it, found wanting and dropped instead of queued: `bound_in_both_orders_iff`.

* *Only the owner counts.* Anyone can send a punch, and `queued` has one slot per
  id. A stranger's punch that finds the slot taken by the owner's pushes it out;
  one that finds an expired nonce deletes it, after which the owner's next punch
  is queued where it would have been dropped. Where neither happens the bindings
  are those of the run without the stranger: `foreign_punches_harmless`.

Both compare two runs, step by step, through the core and the rows of
`OutRelay.PlaneTwins`.
-/

namespace Plane

variable {p q : Plane} {id k : UInt32} {uri : GoString} {nonce : Nonce} {src : AddrPort}
  {now : Time} {e f : PlaneEvent}

/-! ## Operations on one allocation -/

/-- **The operation is one on `id`**: it issues, arms, punches or releases it. -/
def Concerns (p : Plane) (id : UInt32) : PlaneEvent → Prop
  | .allocate _ _ => nextAllocID p.nextID = id
  | .armPending i _ _ _ => i = id
  | .datagram buf _ _ _ => ∃ nonce, Packet.decode buf = .punch id nonce
  | .forget i => i = id
  | .forgetAgent uri _ => uri ≠ [] ∧ id ∈ (p.byURI.get uri).getD ∅
  | .gcOnce now _ _ _ => p.Evicts id now

theorem concerns_congr (hcore : p.core = q.core) (hop : e.op = f.op) :
    p.Concerns id e ↔ q.Concerns id f := by
  rw [eq_of_core_eq hcore]
  cases e <;> cases f <;> cases hop <;> exact Iff.rfl

theorem concerns_of_bindsTo (h : p.BindsTo id src e) : p.Concerns id e := by
  cases e with
  | armPending i uri nonce now => exact h.1
  | datagram buf from_ now now' =>
    obtain ⟨-, nonce, hdec, -⟩ := h
    exact ⟨nonce, hdec⟩
  | _ => exact h.elim

/-- Whether an operation binds `k` depends on the core and on the rows of `k`. -/
theorem bindsTo_congr (hcore : p.core = q.core) (hop : e.op = f.op) (hrow : p.row k = q.row k) :
    p.BindsTo k src e ↔ q.BindsTo k src f := by
  have hpend : p.pending.get k = q.pending.get k := congrArg Row.pending hrow
  have hqueued : p.queued.get k = q.queued.get k := congrArg Row.queued hrow
  have hby := byAlloc_eq_of_core_eq hcore
  cases e with
  | armPending i uri nonce now =>
    cases f <;> cases hop
    show _ ∧ p.Drains k uri nonce now src ↔ _ ∧ q.Drains k uri nonce now src
    unfold Drains ownerOf
    rw [hqueued, hby]
  | datagram buf from_ now now' =>
    cases f <;> cases hop
    show _ ∧ (∃ nonce, _ ∧ p.Binds k nonce now') ↔ _ ∧ (∃ nonce, _ ∧ q.Binds k nonce now')
    unfold Binds
    rw [hpend, hby]
  | _ =>
    cases f <;> cases hop
    exact Iff.rfl

theorem rowAfter_same (hcore : p.core = q.core) (hop : e.op = f.op) (k : UInt32) (r : Row) :
    p.rowAfter k r e = q.rowAfter k r f := by
  rw [← rowAfter_op p k r e, hop, rowAfter_op, rowAfter_congr hcore]

/-- **Nothing is added to a row, and what has not expired is kept.** -/
structure Row.Kept (clock : Time) (r r' : Row) : Prop where
  pending : ∀ x, r'.pending = some x → r.pending = some x
  queued : ∀ x, r'.queued = some x → r.queued = some x
  armed : ∀ x, r.pending = some x → clock ≤ x.expires → r'.pending = some x
  waiting : ∀ x, r.queued = some x → clock ≤ x.expires → r'.queued = some x

theorem Row.Kept.refl (clock : Time) (r : Row) : Row.Kept clock r r :=
  ⟨fun _ h => h, fun _ h => h, fun _ h _ => h, fun _ h _ => h⟩

theorem Row.Kept.trans {c c' : Time} {r r' r'' : Row} (h : Row.Kept c r r')
    (h' : Row.Kept c' r' r'') (hc : c ≤ c') : Row.Kept c' r r'' :=
  ⟨fun x hx => h.pending x (h'.pending x hx), fun x hx => h.queued x (h'.queued x hx),
    fun x hx hexp => h'.armed x (h.armed x hx (hc.trans hexp)) hexp,
    fun x hx hexp => h'.waiting x (h.waiting x hx (hc.trans hexp)) hexp⟩

end Plane

namespace PlaneState

variable {s s' t t' : PlaneState} {id k : UInt32} {uri : GoString} {e f : PlaneEvent}

/-- An operation that is not on `id` keeps its rows. -/
theorem kept_step (hoff : ¬ s.plane.Concerns id e) (hstep : s.step e = some s') :
    Plane.Row.Kept s'.clock (s.plane.row id) (s'.plane.row id) := by
  rw [row_step hstep]
  have hsame : ∀ {r : Plane.Row}, r = s.plane.row id →
      Plane.Row.Kept s'.clock (s.plane.row id) r := by
    rintro r rfl
    exact .refl _ _
  cases e with
  | allocate uri now => exact .refl _ _
  | armPending i uri nonce now => exact hsame (if_neg (fun h => hoff h.1))
  | datagram buf src now now' =>
    refine hsame ?_
    dsimp only [Plane.rowAfter]
    cases hdec : Packet.decode buf with
    | punch i nonce =>
      refine if_neg ?_
      rintro rfl
      exact hoff ⟨nonce, hdec⟩
    | _ => rfl
  | forget i => exact hsame (if_neg hoff)
  | forgetAgent uri order => exact hsame (if_neg (fun h => hoff ⟨h.1, h.2.1⟩))
  | gcOnce now allocs pends punches =>
    have hclock : s'.clock = now := by
      simp only [step] at hstep
      split_ifs at hstep
      cases hstep
      rfl
    have hrow : s.plane.rowAfter id (s.plane.row id) (.gcOnce now allocs pends punches)
        = ⟨(s.plane.row id).pending.filter (fun x => now ≤ x.expires),
          (s.plane.row id).queued.filter (fun x => now ≤ x.expires)⟩ := if_neg hoff
    rw [hrow, hclock]
    refine ⟨fun x hx => ?_, fun x hx => ?_, fun x hx hexp => ?_, fun x hx hexp => ?_⟩
    · exact (Option.filter_eq_some_iff.mp hx).1
    · exact (Option.filter_eq_some_iff.mp hx).1
    · exact Option.filter_eq_some_iff.mpr ⟨hx, decide_eq_true hexp⟩
    · exact Option.filter_eq_some_iff.mpr ⟨hx, decide_eq_true hexp⟩

/-- An operation that is not on `id` leaves it to its owner. -/
theorem ownerOf_of_not_concerns (hoff : ¬ s.plane.Concerns id e) (hstep : s.step e = some s')
    (hown : s.plane.ownerOf id = some uri) : s'.plane.ownerOf id = some uri := by
  obtain ⟨entry, he, rfl⟩ := Option.map_eq_some_iff.mp hown
  have hfresh : ∀ u now, e = .allocate u now → Plane.nextAllocID s.plane.nextID ≠ id := by
    rintro u now rfl
    exact hoff
  rcases entry_cases he hfresh hstep with ⟨entry', he', hu, -⟩ | ⟨src, hb, -⟩ | ⟨-, hrel⟩
  · rw [Plane.ownerOf_of_get he', hu]
  · exact absurd (Plane.concerns_of_bindsTo hb) hoff
  · refine absurd ?_ hoff
    cases e with
    | forget i => exact hrel
    | forgetAgent u order =>
      simp only [step] at hstep
      split_ifs at hstep with ho
      refine ⟨hrel.1, ?_⟩
      rw [← ho.2, List.mem_toFinset]
      exact hrel.2
    | gcOnce now allocs pends punches => exact hrel
    | _ => exact hrel.elim

/-- **The two planes differ in the rows of `id` only.** -/
structure TwinOff (id : UInt32) (s t : PlaneState) : Prop where
  core : s.plane.core = t.plane.core
  rows : ∀ k, k ≠ id → s.plane.row k = t.plane.row k

theorem TwinOff.step (h : TwinOff id s t) (hop : e.op = f.op) (hoff : ¬ s.plane.Concerns id e)
    (hs : s.step e = some s') (ht : t.step f = some t') : TwinOff id s' t' := by
  constructor
  · refine core_step h.core hop (fun k src => ?_) hs ht
    by_cases hk : k = id
    · subst hk
      have hoff' : ¬ t.plane.Concerns k f := fun hc =>
        hoff ((Plane.concerns_congr h.core hop).mpr hc)
      exact ⟨fun hb => absurd (Plane.concerns_of_bindsTo hb) hoff,
        fun hb => absurd (Plane.concerns_of_bindsTo hb) hoff'⟩
    · exact Plane.bindsTo_congr h.core hop (h.rows k hk)
  · intro k hk
    rw [row_step hs, row_step ht, h.rows k hk, Plane.rowAfter_same h.core hop]

end PlaneState

section Orders

variable {idleTTL pendingTTL start : Time} {s s₁ s₂ t₁ t₂ a b : PlaneState} {id : UInt32}
  {uri : GoString} {nonce : Nonce} {src : AddrPort} {buf : List UInt8} {es fs : List PlaneEvent}

/-- **The same operations, none on `id`, from planes that differ in its rows
only** leave planes that do, `id` with its owner, and its rows but for what
expires. -/
theorem PlaneState.TwinOff.run (htwin : PlaneState.TwinOff id s₁ t₁)
    (hes : (planeMachine idleTTL pendingTTL start).run es s₁ = some s₂)
    (hfs : (planeMachine idleTTL pendingTTL start).run fs t₁ = some t₂)
    (hsame : List.Forall₂ (fun e f => PlaneEvent.op e = PlaneEvent.op f) es fs)
    (hoff : (planeMachine idleTTL pendingTTL start).Along
      (fun s e => ¬ s.plane.Concerns id e) es s₁)
    (hown : s₁.plane.ownerOf id = some uri) :
    PlaneState.TwinOff id s₂ t₂ ∧ s₂.plane.ownerOf id = some uri
      ∧ Plane.Row.Kept s₂.clock (s₁.plane.row id) (s₂.plane.row id)
      ∧ Plane.Row.Kept t₂.clock (t₁.plane.row id) (t₂.plane.row id)
      ∧ s₁.clock ≤ s₂.clock ∧ t₁.clock ≤ t₂.clock := by
  induction hsame generalizing s₁ t₁ with
  | nil =>
    cases hes
    cases hfs
    exact ⟨htwin, hown, .refl _ _, .refl _ _, le_rfl, le_rfl⟩
  | @cons e f es fs hop _ ih =>
    obtain ⟨s', hs, hes⟩ := Option.bind_eq_some_iff.mp hes
    obtain ⟨t', ht, hfs⟩ := Option.bind_eq_some_iff.mp hfs
    obtain ⟨hoff, hrest⟩ := hoff
    have hoff' : ¬ t₁.plane.Concerns id f := fun hc =>
      hoff ((Plane.concerns_congr htwin.core hop).mpr hc)
    obtain ⟨h₁, h₂, h₃, h₄, h₅, h₆⟩ := ih (htwin.step hop hoff hs ht) hes hfs (hrest s' hs)
      (PlaneState.ownerOf_of_not_concerns hoff hs hown)
    exact ⟨h₁, h₂, (PlaneState.kept_step hoff hs).trans h₃ h₅,
      (PlaneState.kept_step hoff' ht).trans h₄ h₆,
      (PlaneState.clock_le_of_step hs).trans h₅, (PlaneState.clock_le_of_step ht).trans h₆⟩

/-- No allocation is issued to the empty URI. -/
theorem PlaneState.owner_ne_nil (hs : (planeMachine idleTTL pendingTTL start).Reachable s)
    (hown : s.plane.ownerOf id = some uri) : uri ≠ [] := by
  refine hs.invariant (I := fun s => ∀ id u, s.plane.ownerOf id = some u → u ≠ []) ?_ ?_ id uri hown
  · intro id u hu
    cases hu
  · intro s e s' _ hI hstep k u hu
    by_cases hall : e.isAllocate = true
    · cases e with
      | allocate v now =>
        have hstep : s.step (.allocate v now) = some s' := hstep
        simp only [PlaneState.step] at hstep
        split_ifs at hstep
        obtain ⟨⟨q, i⟩, hq, rfl⟩ := Option.map_eq_some_iff.mp hstep
        have hv : v ≠ [] := by
          rintro rfl
          cases hq
        obtain ⟨-, -, -, hby, -⟩ := Plane.allocate_byAlloc hq
        have hu' : (q.byAlloc.get k).map AllocEntry.uri = some u := hu
        rw [hby, GoMap.get_set] at hu'
        split_ifs at hu'
        · cases hu'
          exact hv
        · exact hI k u hu'
      | _ => cases hall
    · exact hI k u (PlaneState.ownerOf_of_step (Bool.eq_false_iff.mpr hall) hstep hu)

/-! ## The two orders -/

namespace Plane

/-- The nonce is new to `id`: none like it is armed or queued. -/
def Fresh (p : Plane) (id : UInt32) (nonce : Nonce) : Prop :=
  (∀ pend, p.pending.get id = some pend → pend.nonce ≠ nonce)
    ∧ ∀ q, p.queued.get id = some q → q.nonce ≠ nonce

/-- **Both planes have `id` bound to `src`**, agree on every table up to the
times at which allocations were last seen, and have no row left for `id`. -/
structure BoundAlike (id : UInt32) (src : AddrPort) (p q : Plane) : Prop where
  left : p.lookup id = some src
  right : q.lookup id = some src
  byAlloc : p.ownerOf = q.ownerOf ∧ p.lookup = q.lookup
  byURI : p.byURI = q.byURI
  src2id : p.src2id = q.src2id
  rows : p.row id = ⟨none, none⟩ ∧ q.row id = ⟨none, none⟩

variable {p q a b : Plane} {entry : AllocEntry} {now now' : Time}

/-- The tables after the binding of one allocation, at two times. -/
theorem boundAlike_of_rebind (hcore : p.core = q.core) (he : p.byAlloc.get id = some entry)
    (ha : (p.rebind id entry src now).core = a.core)
    (hb : (q.rebind id entry src now').core = b.core)
    (hrows : a.row id = ⟨none, none⟩ ∧ b.row id = ⟨none, none⟩) : BoundAlike id src a b := by
  have hby := byAlloc_eq_of_core_eq hcore
  have haby := byAlloc_eq_of_core_eq ha
  have hbby := byAlloc_eq_of_core_eq hb
  rw [rebind_byAlloc] at haby hbby
  rw [hby] at hbby
  have hla := lookup_setEntry haby
  have hlb := lookup_setEntry hbby
  have hsrc : (p.rebind id entry src now).src2id = (q.rebind id entry src now').src2id := by
    rw [eq_of_core_eq hcore]
    unfold rebind
    split_ifs <;> rfl
  refine ⟨(hla id).trans (if_pos rfl), (hlb id).trans (if_pos rfl), ⟨?_, ?_⟩, ?_, ?_, hrows⟩
  · rw [ownerOf_setEntry haby he rfl, ownerOf_setEntry hbby he rfl]
  · funext k
    rw [hla, hlb]
  · rw [byURI_eq_of_core_eq ha, byURI_eq_of_core_eq hb, rebind_byURI, rebind_byURI,
      byURI_eq_of_core_eq hcore]
  · have hsa : a.src2id = (p.rebind id entry src now).src2id := by rw [eq_of_core_eq ha]
    have hsb : b.src2id = (q.rebind id entry src now').src2id := by rw [eq_of_core_eq hb]
    rw [hsa, hsb]
    exact hsrc

end Plane

namespace PlaneState

theorem clock_of_datagram {now now' : Time}
    (hstep : s.step (.datagram buf src now now') = some s₁) : s.clock ≤ now ∧ now ≤ now' := by
  simp only [step] at hstep
  split_ifs at hstep with hg
  exact ⟨hg.1, hg.2.1⟩

theorem clock_of_arm {now : Time} (hstep : s.step (.armPending id uri nonce now) = some s₁) :
    s.clock ≤ now := by
  simp only [step] at hstep
  split_ifs at hstep with hg
  exact hg

/-- A punch that finds its nonce armed binds. -/
theorem core_of_binds {now now' : Time} {entry : AllocEntry}
    (hbuf : Packet.decode buf = .punch id nonce) (he : s.plane.byAlloc.get id = some entry)
    (hpend : ∃ pend, s.plane.pending.get id = some pend ∧ now' ≤ pend.expires ∧ pend.nonce = nonce)
    (hstep : s.step (.datagram buf src now now') = some s₁) :
    (s.plane.rebind id entry src now).core = s₁.plane.core := by
  simp only [step, Plane.recv, hbuf] at hstep
  split_ifs at hstep
  cases hstep
  obtain ⟨entry', he', heq⟩ := Plane.Binds.register_eq ⟨⟨entry, he⟩, hpend⟩ src now
  cases he.symm.trans he'
  rw [heq]
  rfl

/-- Arming the nonce of the punch that is queued binds. -/
theorem core_of_drains {now : Time} {entry : AllocEntry}
    (he : s.plane.byAlloc.get id = some entry) (hd : s.plane.Drains id uri nonce now src)
    (hstep : s.step (.armPending id uri nonce now) = some s₁) :
    (s.plane.rebind id entry src now).core = s₁.plane.core := by
  simp only [step] at hstep
  split_ifs at hstep
  cases hstep
  obtain ⟨entry', he', heq⟩ := hd.armPending_eq
  cases he.symm.trans he'
  rw [heq]
  refine Plane.core_rebind ?_ id entry src now
  rfl

/-- Arming a new nonce replaces what was armed, drops what was queued, and
changes nothing else. -/
theorem arm_fresh {now : Time} (hown : s.plane.ownerOf id = some uri) (huri : uri ≠ [])
    (hfresh : ∀ q, s.plane.queued.get id = some q → q.nonce ≠ nonce)
    (hstep : s.step (.armPending id uri nonce now) = some s₁) :
    s.plane.core = s₁.plane.core ∧ (∀ k, k ≠ id → s₁.plane.row k = s.plane.row k)
      ∧ s₁.plane.row id = ⟨some ⟨uri, nonce, now + s.plane.ttl⟩, none⟩ := by
  refine ⟨?_, fun k hk => ?_, ?_⟩
  · simp only [step] at hstep
    split_ifs at hstep
    cases hstep
    refine (Plane.core_armPending_of_not_drains ?_).symm
    rintro x ⟨-, -, q, hq, -, hnonce, -⟩
    exact hfresh q hq hnonce
  · rw [row_step hstep]
    exact if_neg (fun h => hk h.1.symm)
  · rw [row_step hstep]
    dsimp only [Plane.rowAfter]
    rw [if_pos ⟨rfl, huri, hown⟩, if_neg]
    rintro ⟨q, hq, -, hnonce⟩
    exact hfresh q hq hnonce

/-- A punch with a nonce that is not armed is queued where nothing is armed, and
dropped where something is. -/
theorem punch_fresh {now now' : Time} (hbuf : Packet.decode buf = .punch id nonce)
    (hfresh : ∀ pend, s.plane.pending.get id = some pend → pend.nonce ≠ nonce)
    (hstep : s.step (.datagram buf src now now') = some t₁) :
    s.plane.core = t₁.plane.core ∧ (∀ k, k ≠ id → t₁.plane.row k = s.plane.row k)
      ∧ (s.plane.pending.get id = none →
        t₁.plane.row id = ⟨none, some ⟨src, nonce, now + s.plane.ttl⟩⟩)
      ∧ (s.plane.pending.get id ≠ none → t₁.plane.queued.get id = s.plane.queued.get id) := by
  refine ⟨?_, fun k hk => ?_, fun hnone => ?_, fun hsome => ?_⟩
  · simp only [step, Plane.recv, hbuf] at hstep
    split_ifs at hstep
    cases hstep
    refine (Plane.core_register_of_not_binds ?_ src now).symm
    rintro ⟨-, pend, hp, -, hnonce⟩
    exact hfresh pend hp hnonce
  · rw [row_step hstep]
    dsimp only [Plane.rowAfter]
    rw [hbuf]
    exact if_neg (Ne.symm hk)
  · rw [row_step hstep]
    dsimp only [Plane.rowAfter, Plane.row]
    rw [hbuf]
    dsimp only
    rw [if_pos rfl, hnone]
  · obtain ⟨pend, hp⟩ := Option.ne_none_iff_exists'.mp hsome
    have hrow := row_step hstep id
    dsimp only [Plane.rowAfter, Plane.row] at hrow
    rw [hbuf] at hrow
    dsimp only at hrow
    rw [if_pos rfl, hp] at hrow
    dsimp only at hrow
    split_ifs at hrow
    · exact congrArg Plane.Row.queued hrow
    · exact congrArg Plane.Row.queued hrow

end PlaneState

/-- **When the order of the handshake makes no difference.** Let `id` be live and
owned by `uri`, and the nonce new. Let the owner's `ArmPending` and the punch be
processed less than the time-to-live apart, in one order and in the other, with
the same operations in between and none of them on `id`. Then both leave `id`
bound to the punch's source, with the same tables and nothing waiting – exactly
when no nonce was armed for `id` before. -/
theorem bound_in_both_orders_iff {armed punched punched' queued queued' drained : Time}
    (hs : (planeMachine idleTTL pendingTTL start).Reachable s)
    (hown : s.plane.ownerOf id = some uri) (hfresh : s.plane.Fresh id nonce)
    (hbuf : Packet.decode buf = .punch id nonce)
    (harm : s.step (.armPending id uri nonce armed) = some s₁)
    (hes : (planeMachine idleTTL pendingTTL start).run es s₁ = some s₂)
    (hpunch : s₂.step (.datagram buf src punched punched') = some a)
    (hin : punched' < armed + s.plane.ttl)
    (hqueue : s.step (.datagram buf src queued queued') = some t₁)
    (hfs : (planeMachine idleTTL pendingTTL start).run fs t₁ = some t₂)
    (hdrain : t₂.step (.armPending id uri nonce drained) = some b)
    (hin' : drained < queued + s.plane.ttl)
    (hsame : List.Forall₂ (fun e f => PlaneEvent.op e = PlaneEvent.op f) es fs)
    (hoff : (planeMachine idleTTL pendingTTL start).Along
      (fun s e => ¬ s.plane.Concerns id e) es s₁) :
    a.plane.BoundAlike id src b.plane ↔ s.plane.pending.get id = none := by
  have huri := PlaneState.owner_ne_nil hs hown
  obtain ⟨hcore₁, hrows₁, hrow₁⟩ := PlaneState.arm_fresh hown huri hfresh.2 harm
  obtain ⟨hcore₂, hrows₂, hnone, hsome⟩ := PlaneState.punch_fresh hbuf hfresh.1 hqueue
  have htwin : PlaneState.TwinOff id s₁ t₁ :=
    ⟨hcore₁.symm.trans hcore₂, fun k hk => (hrows₁ k hk).trans (hrows₂ k hk).symm⟩
  have hown₁ : s₁.plane.ownerOf id = some uri := by
    unfold Plane.ownerOf
    rw [Plane.byAlloc_eq_of_core_eq hcore₁]
    exact hown
  obtain ⟨htwin, hown₂, hkept, hkept', -, -⟩ := htwin.run hes hfs hsame hoff hown₁
  have hown₃ : t₂.plane.ownerOf id = some uri := by
    unfold Plane.ownerOf
    rw [Plane.byAlloc_eq_of_core_eq htwin.core]
    exact hown₂
  constructor
  · intro hbound
    -- the early punch has been dropped, and the arming leaves its nonce waiting
    by_contra hne
    have hrow := PlaneState.row_step hdrain id
    dsimp only [Plane.rowAfter] at hrow
    rw [hbound.rows.2, if_pos ⟨rfl, huri, hown₃⟩, if_neg] at hrow
    · cases hrow
    · rintro ⟨q, hq, -, hnonce⟩
      exact hfresh.2 q ((hsome hne).symm.trans (hkept'.queued q hq)) hnonce
  · intro hpend
    have hclock := PlaneState.clock_of_datagram hpunch
    obtain ⟨entry, he, rfl⟩ := Option.map_eq_some_iff.mp hown₂
    -- the nonce is still armed when the punch comes, which binds
    have harmed : s₂.plane.row id = ⟨some ⟨entry.uri, nonce, armed + s.plane.ttl⟩, none⟩ := by
      rw [hrow₁] at hkept
      ext1
      · exact hkept.armed _ rfl (hclock.1.trans (hclock.2.trans hin.le))
      · exact Option.eq_none_iff_forall_ne_some.mpr (fun q hq => nomatch hkept.queued q hq)
    -- the punch is still queued when the nonce is armed, which drains it
    have hwaits : t₂.plane.row id = ⟨none, some ⟨src, nonce, queued + s.plane.ttl⟩⟩ := by
      rw [hnone hpend] at hkept'
      ext1
      · exact Option.eq_none_iff_forall_ne_some.mpr (fun x hx => nomatch hkept'.pending x hx)
      · exact hkept'.waiting _ rfl ((PlaneState.clock_of_arm hdrain).trans hin'.le)
    have he' : t₂.plane.byAlloc.get id = some entry := by
      rw [Plane.byAlloc_eq_of_core_eq htwin.core]
      exact he
    refine Plane.boundAlike_of_rebind htwin.core he
      (PlaneState.core_of_binds hbuf he ⟨_, congrArg Plane.Row.pending harmed, hin.le, rfl⟩ hpunch)
      (PlaneState.core_of_drains he'
        ⟨huri, hown₃, _, congrArg Plane.Row.queued hwaits, hin', rfl, rfl⟩ hdrain) ⟨?_, ?_⟩
    · rw [PlaneState.row_step hpunch, harmed]
      dsimp only [Plane.rowAfter]
      rw [hbuf]
      dsimp only
      rw [if_pos rfl, if_neg (fun h => h.2 rfl)]
    · rw [PlaneState.row_step hdrain, hwaits]
      dsimp only [Plane.rowAfter]
      rw [if_pos ⟨rfl, huri, hown₃⟩, if_pos ⟨_, rfl, hin', rfl⟩]

end Orders

/-- An agent arms a nonce and never punches. Its next attempt binds if the control
frame comes first; if the punch does, it is dropped, and the new nonce waits for
one that has been. -/
theorem early_punch_dropped :
    ∃ s s₁ a t₁ b, (planeMachine 100 5 0).Reachable s
      ∧ s.plane.ownerOf 1 = some (go "c1") ∧ s.plane.Fresh 1 (repeatNonce 8)
      ∧ s.step (.armPending 1 (go "c1") (repeatNonce 8) 3) = some s₁
      ∧ s₁.step (.datagram (punchBytes 1 8) (loopback 4000) 4 4) = some a
      ∧ s.step (.datagram (punchBytes 1 8) (loopback 4000) 3 3) = some t₁
      ∧ t₁.step (.armPending 1 (go "c1") (repeatNonce 8) 4) = some b
      ∧ a.plane.lookup 1 = some (loopback 4000) ∧ b.plane.lookup 1 = some AddrPort.zero
      ∧ ¬ a.plane.BoundAlike 1 (loopback 4000) b.plane := by
  obtain ⟨s, s₁, a, t₁, b, hrun, hown, hpend, hqueued, h₁, ha, h₂, hb, hla, hlb⟩ : ∃ s s₁ a t₁ b,
      (planeMachine 100 5 0).run [.allocate (go "c1") 1, .armPending 1 (go "c1") (repeatNonce 7) 2]
        (planeMachine 100 5 0).init = some s
      ∧ s.plane.ownerOf 1 = some (go "c1")
      ∧ s.plane.pending.get 1 = some ⟨go "c1", repeatNonce 7, 7⟩ ∧ s.plane.queued.get 1 = none
      ∧ s.step (.armPending 1 (go "c1") (repeatNonce 8) 3) = some s₁
      ∧ s₁.step (.datagram (punchBytes 1 8) (loopback 4000) 4 4) = some a
      ∧ s.step (.datagram (punchBytes 1 8) (loopback 4000) 3 3) = some t₁
      ∧ t₁.step (.armPending 1 (go "c1") (repeatNonce 8) 4) = some b
      ∧ a.plane.lookup 1 = some (loopback 4000) ∧ b.plane.lookup 1 = some AddrPort.zero :=
    ⟨_, _, _, _, _, rfl, rfl, rfl, rfl, rfl, rfl, rfl, rfl, rfl, rfl⟩
  obtain ⟨h, hx, -⟩ := Machine.exec_of_run _ _ hrun
  refine ⟨s, s₁, a, t₁, b, ⟨h, hx⟩, hown, ⟨fun pend hp => ?_, fun q hq => ?_⟩, h₁, ha, h₂, hb, hla,
    hlb, fun hbound => ?_⟩
  · rw [hpend] at hp
    cases hp
    decide
  · rw [hqueued] at hq
    cases hq
  · exact absurd (hlb.symm.trans hbound.right) (by decide)

/-- The handshake of a new allocation in both orders, while another allocation is
issued. -/
theorem new_allocation_bound_in_both_orders :
    ∃ s s₁ s₂ a t₁ t₂ b, (planeMachine 100 5 0).Reachable s
      ∧ s.step (.armPending 1 (go "c1") (repeatNonce 8) 3) = some s₁
      ∧ s₁.step (.allocate (go "d1") 4) = some s₂
      ∧ s₂.step (.datagram (punchBytes 1 8) (loopback 4000) 5 6) = some a
      ∧ s.step (.datagram (punchBytes 1 8) (loopback 4000) 3 3) = some t₁
      ∧ t₁.step (.allocate (go "d1") 4) = some t₂
      ∧ t₂.step (.armPending 1 (go "c1") (repeatNonce 8) 7) = some b
      ∧ a.plane.BoundAlike 1 (loopback 4000) b.plane := by
  obtain ⟨s, s₁, s₂, a, t₁, t₂, b, hrun, hown, hpend, hqueued, httl, h₁, h₂, ha, h₃, h₄, hb,
      hnext⟩ :
      ∃ s s₁ s₂ a t₁ t₂ b,
      (planeMachine 100 5 0).run [.allocate (go "c1") 1] (planeMachine 100 5 0).init = some s
      ∧ s.plane.ownerOf 1 = some (go "c1")
      ∧ s.plane.pending.get 1 = none ∧ s.plane.queued.get 1 = none ∧ s.plane.ttl = 5
      ∧ s.step (.armPending 1 (go "c1") (repeatNonce 8) 3) = some s₁
      ∧ s₁.step (.allocate (go "d1") 4) = some s₂
      ∧ s₂.step (.datagram (punchBytes 1 8) (loopback 4000) 5 6) = some a
      ∧ s.step (.datagram (punchBytes 1 8) (loopback 4000) 3 3) = some t₁
      ∧ t₁.step (.allocate (go "d1") 4) = some t₂
      ∧ t₂.step (.armPending 1 (go "c1") (repeatNonce 8) 7) = some b
      ∧ Plane.nextAllocID s₁.plane.nextID = 2 :=
    ⟨_, _, _, _, _, _, _, rfl, rfl, rfl, rfl, rfl, rfl, rfl, rfl, rfl, rfl, rfl, rfl⟩
  obtain ⟨h, hx, -⟩ := Machine.exec_of_run _ _ hrun
  refine ⟨s, s₁, s₂, a, t₁, t₂, b, ⟨h, hx⟩, h₁, h₂, ha, h₃, h₄, hb, ?_⟩
  have hone : ∀ {u v : PlaneState}, u.step (.allocate (go "d1") 4) = some v →
      (planeMachine 100 5 0).run [.allocate (go "d1") 4] u = some v := by
    intro u v huv
    exact Option.bind_eq_some_iff.mpr ⟨v, huv, rfl⟩
  refine (bound_in_both_orders_iff ⟨h, hx⟩ hown ⟨fun pend hp => ?_, fun q hq => ?_⟩ rfl h₁
    (hone h₂) ha ?_ h₃ (hone h₄) hb ?_ (.cons rfl .nil) ⟨?_, fun _ _ => trivial⟩).mpr hpend
  · rw [hpend] at hp
    cases hp
  · rw [hqueued] at hq
    cases hq
  · rw [httl]
    decide
  · rw [httl]
    decide
  · show ¬ Plane.nextAllocID s₁.plane.nextID = 1
    rw [hnext]
    decide

/-! ## The punches of strangers -/

section Strangers

variable {A : UInt32 → Nonce → Prop} {clock clock' : Time} {k : UInt32} {e f : PlaneEvent}
  {s s' t t' : PlaneState}

/-- **A queued punch that will never bind**: it has expired, or carries a nonce
that the owner does not arm. -/
def Spent (A : UInt32 → Nonce → Prop) (clock : Time) (k : UInt32) (x : Option QueuedPunch) : Prop :=
  ∀ q, x = some q → q.expires ≤ clock ∨ ¬ A k q.nonce

theorem Spent.mono {x : Option QueuedPunch} (h : Spent A clock k x) (hc : clock ≤ clock') :
    Spent A clock' k x := fun q hq => (h q hq).imp_left hc.trans'

theorem Spent.none : Spent A clock k none := fun _ hq => by cases hq

theorem Spent.filter {x : Option QueuedPunch} (h : Spent A clock k x) (g : QueuedPunch → Bool) :
    Spent A clock k (x.filter g) := fun q hq => h q (Option.filter_eq_some_iff.mp hq).1

/-- Arming the owner's nonce drains no spent punch. -/
theorem Spent.not_drained {x : Option QueuedPunch} {nonce : Nonce} {now : Time}
    (h : Spent A clock k x) (hA : A k nonce) (hnow : clock ≤ now) :
    ¬ ∃ q ∈ x, now < q.expires ∧ q.nonce = nonce := by
  rintro ⟨q, hq, hexp, rfl⟩
  rcases h q hq with hold | hnever
  · exact absurd hexp (not_lt.mpr (hold.trans hnow))
  · exact hnever hA

/-- **The rows of `k` in the run without the stranger, and in the run with**: the
same nonce is armed, by the owner, and the queued punches are the same or will
never bind. -/
structure Plane.Row.Shadows (A : UInt32 → Nonce → Prop) (clock : Time) (k : UInt32)
    (r r' : Plane.Row) : Prop where
  pending : r.pending = r'.pending
  queued : r.queued = r'.queued ∨ (Spent A clock k r.queued ∧ Spent A clock k r'.queued)
  armed : ∀ pend, r'.pending = some pend → A k pend.nonce

namespace Plane.Row.Shadows

variable {p : Plane} {r r' : Plane.Row}

theorem mono (h : Shadows A clock k r r') (hc : clock ≤ clock') : Shadows A clock' k r r' :=
  ⟨h.pending, h.queued.imp_right (fun hs => ⟨hs.1.mono hc, hs.2.mono hc⟩), h.armed⟩

theorem empty : Shadows A clock k ⟨none, none⟩ ⟨none, none⟩ :=
  ⟨rfl, Or.inl rfl, fun _ hp => by cases hp⟩

/-- A row that has lost its nonce. -/
theorem disarm (h : Shadows A clock k r r') :
    Shadows A clock k ⟨none, r.queued⟩ ⟨none, r'.queued⟩ :=
  ⟨rfl, h.queued, fun _ hp => by cases hp⟩

/-- **What an operation of both runs does to the rows.** -/
theorem after (h : Shadows A clock k r r') (hc : clock ≤ clock')
    (hA : ∀ uri nonce now, e = .armPending k uri nonce now → uri ≠ [] → p.ownerOf k = some uri →
      A k nonce ∧ clock ≤ now) :
    Shadows A clock' k (p.rowAfter k r e) (p.rowAfter k r' e) := by
  refine mono ?_ hc
  cases e with
  | allocate uri now => exact h
  | armPending id uri nonce now =>
    dsimp only [Plane.rowAfter]
    by_cases hk : id = k ∧ uri ≠ [] ∧ p.ownerOf k = some uri
    · rw [if_pos hk, if_pos hk]
      obtain ⟨rfl, huri, hown⟩ := hk
      obtain ⟨hnonce, hnow⟩ := hA uri nonce now rfl huri hown
      have hnew : Shadows A clock id ⟨some ⟨uri, nonce, now + p.ttl⟩, none⟩
          ⟨some ⟨uri, nonce, now + p.ttl⟩, none⟩ :=
        ⟨rfl, Or.inl rfl, fun _ hp => by cases hp; exact hnonce⟩
      rcases h.queued with heq | ⟨hs, hs'⟩
      · rw [heq]
        split_ifs
        · exact ⟨h.pending, Or.inl rfl, h.armed⟩
        · exact hnew
      · rw [if_neg (hs.not_drained hnonce hnow), if_neg (hs'.not_drained hnonce hnow)]
        exact hnew
    · rw [if_neg hk, if_neg hk]
      exact h
  | datagram buf src now now' =>
    dsimp only [Plane.rowAfter]
    cases Packet.decode buf with
    | punch id nonce =>
      dsimp only
      split_ifs
      · rw [h.pending]
        cases hp : r'.pending with
        | none => exact ⟨rfl, Or.inl rfl, fun _ hp => by cases hp⟩
        | some pend =>
          dsimp only
          split_ifs
          · exact h
          · exact h.disarm
      · exact h
    | _ => exact h
  | forget id =>
    dsimp only [Plane.rowAfter]
    split_ifs
    · exact empty
    · exact h
  | forgetAgent uri order =>
    dsimp only [Plane.rowAfter]
    split_ifs
    · exact empty
    · exact h
  | gcOnce now allocs pends punches =>
    dsimp only [Plane.rowAfter]
    split_ifs
    · exact empty
    · refine ⟨by rw [h.pending], ?_, fun pend hp => ?_⟩
      · rcases h.queued with heq | ⟨hs, hs'⟩
        · exact Or.inl (by rw [heq])
        · exact Or.inr ⟨hs.filter _, hs'.filter _⟩
      · exact h.armed pend (Option.filter_eq_some_iff.mp hp).1

end Plane.Row.Shadows

namespace PlaneState

/-- **The run with the stranger shadows the run without**: it has the same
bindings, and rows that come to the same. -/
structure Shadows (A : UInt32 → Nonce → Prop) (s t : PlaneState) : Prop where
  core : s.plane.core = t.plane.core
  clock : s.clock ≤ t.clock
  rows : ∀ k, Plane.Row.Shadows A t.clock k (s.plane.row k) (t.plane.row k)

/-- The clocks after one operation of both runs. -/
theorem clock_le_of_same (hc : s.clock ≤ t.clock) (hop : e.op = f.op) (hs : s.step e = some s')
    (ht : t.step f = some t') : s'.clock ≤ t'.clock := by
  cases e with
  | forget id =>
    cases f <;> cases hop
    cases hs
    cases ht
    exact hc
  | forgetAgent uri order =>
    cases f <;> cases hop
    simp only [step] at hs ht
    split_ifs at hs ht
    cases hs
    cases ht
    exact hc
  | allocate uri now =>
    cases f <;> cases hop
    simp only [step] at hs ht
    split_ifs at hs ht
    obtain ⟨r, -, rfl⟩ := Option.map_eq_some_iff.mp hs
    obtain ⟨r', -, rfl⟩ := Option.map_eq_some_iff.mp ht
    exact le_rfl
  | _ =>
    cases f <;> cases hop
    simp only [step] at hs ht
    split_ifs at hs ht
    cases hs
    cases ht
    exact le_rfl

theorem Shadows.step (h : Shadows A s t) (hop : e.op = f.op)
    (hA : ∀ id uri nonce τ, ArmsWith id uri nonce τ ⟨s, e, s'⟩ → A id nonce)
    (hs : s.step e = some s') (ht : t.step f = some t') : Shadows A s' t' := by
  -- the nonces that are armed now are the owner's
  have harm : ∀ k uri nonce now, e = .armPending k uri nonce now → uri ≠ [] →
      s.plane.ownerOf k = some uri → A k nonce ∧ t.clock ≤ now := by
    rintro k uri nonce now rfl huri hown
    refine ⟨hA k uri nonce now ⟨rfl, Plane.armPending_ok hown huri nonce now⟩, ?_⟩
    cases f <;> cases hop
    exact clock_of_arm ht
  refine ⟨core_step h.core hop (fun k src => ?_) hs ht, clock_le_of_same h.clock hop hs ht,
    fun k => ?_⟩
  · rcases (h.rows k).queued with heq | ⟨hspent, hspent'⟩
    · exact Plane.bindsTo_congr h.core hop (Plane.Row.ext (h.rows k).pending heq)
    · -- what is queued in either run is not drained, and punches look at what is armed
      cases e with
      | armPending i uri nonce now =>
        cases f <;> cases hop
        constructor
        · rintro ⟨rfl, huri, hown, q, hq, hexp, hnonce, -⟩
          obtain ⟨hnew, hnow⟩ := harm i uri nonce now rfl huri hown
          exact absurd ⟨q, hq, hexp, hnonce⟩ (hspent.not_drained hnew hnow)
        · rintro ⟨rfl, huri, hown, q, hq, hexp, hnonce, -⟩
          unfold Plane.ownerOf at hown
          rw [Plane.byAlloc_eq_of_core_eq h.core] at hown
          obtain ⟨hnew, hnow⟩ := harm i uri nonce now rfl huri hown
          exact absurd ⟨q, hq, hexp, hnonce⟩ (hspent'.not_drained hnew hnow)
      | datagram buf from_ now now' =>
        cases f <;> cases hop
        have hpend : s.plane.pending.get k = t.plane.pending.get k := (h.rows k).pending
        show _ ∧ (∃ nonce, _ ∧ s.plane.Binds k nonce now')
          ↔ _ ∧ (∃ nonce, _ ∧ t.plane.Binds k nonce now')
        unfold Plane.Binds
        rw [hpend, Plane.byAlloc_eq_of_core_eq h.core]
      | _ =>
        cases f <;> cases hop
        exact Iff.rfl
  · rw [row_step hs, row_step ht, ← Plane.rowAfter_same h.core hop]
    exact (h.rows k).after (clock_le_of_step ht) (harm k)

end PlaneState

/-- A registration datagram whose nonce is not one the owner arms. -/
def ForeignPunch (A : UInt32 → Nonce → Prop) (u : PlaneTransition) : Prop :=
  ∃ id src nonce τ, Punches id src nonce τ u ∧ ¬ A id nonce

/-- **The punch does no harm**: it finds a nonce armed that has not expired; or
none armed, and no punch queued that the owner's arming would bind. -/
def Harmless (A : UInt32 → Nonce → Prop) (u : PlaneTransition) : Prop :=
  ∀ buf src now now' id nonce, u.ev = .datagram buf src now now' →
    Packet.decode buf = .punch id nonce →
      (∃ pend, u.pre.plane.pending.get id = some pend ∧ now' ≤ pend.expires)
        ∨ (u.pre.plane.pending.get id = none ∧ Spent A now id (u.pre.plane.queued.get id))

/-- **A stranger's punch that does no harm leaves the run shadowing the other.** -/
theorem PlaneState.Shadows.foreign {u : PlaneTransition} (h : PlaneState.Shadows A s u.pre)
    (hu : ForeignPunch A u) (hharm : Harmless A u) (hstep : u.pre.step u.ev = some u.post) :
    PlaneState.Shadows A s u.post := by
  obtain ⟨id, src, nonce, now, ⟨buf, now', hev, hdec⟩, hforeign⟩ := hu
  rw [hev] at hstep
  have hrow := h.rows id
  have hfresh : ∀ pend, u.pre.plane.pending.get id = some pend → pend.nonce ≠ nonce := by
    rintro pend hp rfl
    exact hforeign (hrow.armed pend hp)
  obtain ⟨hcore, hrows, hnone, -⟩ := PlaneState.punch_fresh hdec hfresh hstep
  have hclock := PlaneState.clock_le_of_step hstep
  refine ⟨h.core.trans hcore, h.clock.trans hclock, fun k => ?_⟩
  by_cases hk : k = id
  · subst hk
    rcases hharm buf src now now' k nonce hev hdec with ⟨pend, hp, hexp⟩ | ⟨hp, hspent⟩
    · -- the nonce is compared with the one armed, and the punch dropped
      have hsame : u.post.plane.row k = u.pre.plane.row k := by
        rw [PlaneState.row_step hstep]
        dsimp only [Plane.rowAfter, Plane.row]
        rw [hdec]
        dsimp only
        rw [if_pos rfl, hp]
        exact if_pos ⟨hexp, hfresh pend hp⟩
      rw [hsame]
      exact hrow.mono hclock
    · -- the punch takes a place that was free, or of no use to the owner
      obtain ⟨hc, hc'⟩ := PlaneState.clock_of_datagram hstep
      have hpost : u.post.clock = now' := by
        simp only [PlaneState.step] at hstep
        split_ifs at hstep
        rw [← Option.some.inj hstep]
      rw [hnone hp, hpost]
      refine ⟨hrow.pending.trans hp, Or.inr ⟨?_, ?_⟩, fun _ hx => by cases hx⟩
      · refine Spent.mono ?_ hc'
        rcases hrow.queued with heq | ⟨hs, -⟩
        · rw [heq]
          exact hspent
        · exact hs.mono hc
      · intro q hq
        cases hq
        exact Or.inr hforeign
  · rw [hrows k hk]
    exact (h.rows k).mono hclock

/-- The owner of `id` arms the nonce at some time of the run. -/
def EverArms (h : List PlaneTransition) (id : UInt32) (nonce : Nonce) : Prop :=
  ∃ u ∈ h, ∃ uri τ, ArmsWith id uri nonce τ u

/-- **When foreign punches are harmless.** Take a run `h` of the plane, and insert
registration datagrams whose nonces are none of those that the owners ever arm in
it. Compare the two runs at any point: after the part `g` of the first and the
corresponding part `g'` of the second. If every datagram inserted so far does no
harm where it is inserted, the bindings agree. -/
theorem foreign_punches_harmless {idleTTL pendingTTL start : Time}
    {h g g' : List PlaneTransition} (hg : g <+: h)
    (hx : (planeMachine idleTTL pendingTTL start).Exec g s)
    (hx' : (planeMachine idleTTL pendingTTL start).Exec g' t)
    (hins : Machine.Inserted (fun e f => PlaneEvent.op e = PlaneEvent.op f)
      (fun u => ForeignPunch (EverArms h) u ∧ Harmless (EverArms h) u) g g') (id : UInt32) :
    s.plane.lookup id = t.plane.lookup id := by
  have hsh : PlaneState.Shadows (EverArms h) s t := by
    refine hins.relates ⟨rfl, le_rfl, fun k => Plane.Row.Shadows.empty⟩ ?_ ?_ hx hx'
    · intro u u' hu hR hop hstep hstep'
      exact hR.step hop (fun _ uri _ τ harm => ⟨u, hg.subset hu, uri, τ, harm⟩) hstep hstep'
    · rintro s u' hR ⟨hforeign, hharm⟩ hstep'
      exact hR.foreign hforeign hharm hstep'
  unfold Plane.lookup
  rw [Plane.byAlloc_eq_of_core_eq hsh.core]

end Strangers

/-- The owner's punch is queued, and a stranger's pushes it out: the arming that
binds in the first run finds the wrong nonce in the second. -/
theorem stranger_pushes_out_punch :
    ∃ h h' s t, (planeMachine 100 5 0).Exec h s ∧ (planeMachine 100 5 0).Exec h' t
      ∧ Machine.Inserted (fun e f => PlaneEvent.op e = PlaneEvent.op f)
        (ForeignPunch (EverArms h)) h h'
      ∧ h.map Transition.ev = [.allocate (go "c1") 1,
        .datagram (punchBytes 1 7) (loopback 4000) 2 2, .armPending 1 (go "c1") (repeatNonce 7) 4]
      ∧ h'.map Transition.ev = [.allocate (go "c1") 1,
        .datagram (punchBytes 1 7) (loopback 4000) 2 2,
        .datagram (punchBytes 1 9) (loopback 5000) 3 3, .armPending 1 (go "c1") (repeatNonce 7) 4]
      ∧ s.plane.lookup 1 = some (loopback 4000) ∧ t.plane.lookup 1 = some AddrPort.zero := by
  obtain ⟨s₁, s₂, s, t₂, t, h₁, h₂, h₃, h₄, h₅, hs, ht⟩ : ∃ s₁ s₂ s t₂ t,
      (planeMachine 100 5 0).step (planeMachine 100 5 0).init (.allocate (go "c1") 1) = some s₁
      ∧ (planeMachine 100 5 0).step s₁ (.datagram (punchBytes 1 7) (loopback 4000) 2 2) = some s₂
      ∧ (planeMachine 100 5 0).step s₂ (.armPending 1 (go "c1") (repeatNonce 7) 4) = some s
      ∧ (planeMachine 100 5 0).step s₂ (.datagram (punchBytes 1 9) (loopback 5000) 3 3) = some t₂
      ∧ (planeMachine 100 5 0).step t₂ (.armPending 1 (go "c1") (repeatNonce 7) 4) = some t
      ∧ s.plane.lookup 1 = some (loopback 4000) ∧ t.plane.lookup 1 = some AddrPort.zero :=
    ⟨_, _, _, _, _, rfl, rfl, rfl, rfl, rfl, rfl, rfl⟩
  have hx := (Machine.Exec.nil.snoc h₁).snoc h₂
  refine ⟨_, _, s, t, hx.snoc h₃, (hx.snoc h₄).snoc h₅, ?_, rfl, rfl, hs, ht⟩
  refine .both (.extra (.both (.both .nil rfl) rfl) ?_) rfl
  refine ⟨1, loopback 5000, repeatNonce 9, 3, ⟨_, _, rfl, rfl⟩, ?_⟩
  rintro ⟨u, hu, uri, τ, hev, -⟩
  simp only [List.nil_append, List.cons_append, List.mem_cons, List.not_mem_nil, or_false] at hu
  rcases hu with rfl | rfl | rfl
  · cases hev
  · cases hev
  · injection hev with _ _ hnonce
    exact absurd hnonce (by decide)

/-- A stranger's punch that comes while the owner's nonce is armed is dropped, and
the owner's binds. -/
theorem stranger_dropped :
    ∃ h h' s t, (planeMachine 100 5 0).Exec h s ∧ (planeMachine 100 5 0).Exec h' t
      ∧ h'.map Transition.ev = [.allocate (go "c1") 1, .armPending 1 (go "c1") (repeatNonce 7) 2,
        .datagram (punchBytes 1 9) (loopback 5000) 3 3,
        .datagram (punchBytes 1 7) (loopback 4000) 4 4]
      ∧ s.plane.lookup 1 = t.plane.lookup 1 ∧ s.plane.lookup 1 = some (loopback 4000) := by
  obtain ⟨s₁, s₂, s, t₂, t, h₁, h₂, h₃, h₄, h₅, hpend, hs⟩ : ∃ s₁ s₂ s t₂ t,
      (planeMachine 100 5 0).step (planeMachine 100 5 0).init (.allocate (go "c1") 1) = some s₁
      ∧ (planeMachine 100 5 0).step s₁ (.armPending 1 (go "c1") (repeatNonce 7) 2) = some s₂
      ∧ (planeMachine 100 5 0).step s₂ (.datagram (punchBytes 1 7) (loopback 4000) 4 4) = some s
      ∧ (planeMachine 100 5 0).step s₂ (.datagram (punchBytes 1 9) (loopback 5000) 3 3) = some t₂
      ∧ (planeMachine 100 5 0).step t₂ (.datagram (punchBytes 1 7) (loopback 4000) 4 4) = some t
      ∧ s₂.plane.pending.get 1 = some ⟨go "c1", repeatNonce 7, 7⟩
      ∧ s.plane.lookup 1 = some (loopback 4000) :=
    ⟨_, _, _, _, _, rfl, rfl, rfl, rfl, rfl, rfl, rfl⟩
  have hx := (Machine.Exec.nil.snoc h₁).snoc h₂
  refine ⟨_, _, s, t, hx.snoc h₃, (hx.snoc h₄).snoc h₅, rfl, ?_, hs⟩
  refine foreign_punches_harmless List.prefix_rfl (hx.snoc h₃) ((hx.snoc h₄).snoc h₅) ?_ 1
  refine .both (.extra (.both (.both .nil rfl) rfl) ⟨?_, ?_⟩) rfl
  · refine ⟨1, loopback 5000, repeatNonce 9, 3, ⟨_, _, rfl, rfl⟩, ?_⟩
    rintro ⟨u, hu, uri, τ, hev, -⟩
    simp only [List.nil_append, List.cons_append, List.mem_cons, List.not_mem_nil, or_false] at hu
    rcases hu with rfl | rfl | rfl
    · cases hev
    · injection hev with _ _ hnonce
      exact absurd hnonce (by decide)
    · cases hev
  · intro buf src now now' id nonce hev hdec
    cases hev
    cases hdec
    exact Or.inl ⟨_, hpend, by decide⟩
