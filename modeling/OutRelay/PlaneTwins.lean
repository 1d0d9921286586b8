import OutRelay.PlaneBinding

/-!
# Planes that differ in their waiting rooms

Some statements about the plane compare two runs: the handshake in its two
orders, a run with and without the punches of a stranger. The planes of the two
runs differ only in their waiting rooms, `pending` and `queued`; the rest – the
bindings, their owners, the reverse index, the counter – is the *core*.

An operation reads the waiting rooms for one purpose, to decide whether it binds
an address. So two planes with one core keep one core as long as they bind alike
(`core_step`). And what an operation does to the row of an id in the two rooms
depends on the core and on that row, and on no other row: `rowAfter` says what,
in closed form, and `row_step` that the code does it.

The operations of the two runs are *the same* when they agree up to the orders
in which their loops range over the maps, which no one chooses – and which
cannot agree where the maps differ. That the orders make no difference is proved
first: the rounds of either loop commute.
-/

namespace Plane

variable {p q : Plane} {id k : UInt32} {uri : GoString} {now : Time}

/-! ## The orders of the loops -/

theorem get_dropURI (m : GoMap GoString (Finset UInt32)) (uri u : GoString) (id : UInt32) :
    (dropURI m uri id).get u
      = if u = uri then
          (m.get uri).bind (fun set => if set.erase id = ∅ then none else some (set.erase id))
        else m.get u := by
  unfold dropURI
  cases hm : m.get uri with
  | none =>
    split_ifs with hu
    · rw [hu, hm]
      rfl
    · rfl
  | some set =>
    dsimp only [Option.bind_some]
    by_cases hempty : set.erase id = ∅
    · rw [if_pos hempty, if_pos hempty, GoMap.get_del]
    · rw [if_neg hempty, if_neg hempty, GoMap.get_set]

theorem dropURI_comm (m : GoMap GoString (Finset UInt32)) (u v : GoString) (i j : UInt32) :
    dropURI (dropURI m u i) v j = dropURI (dropURI m v j) u i := by
  refine GoMap.ext_get (fun w => ?_)
  simp only [get_dropURI]
  by_cases huv : v = u
  · subst huv
    simp only [if_true]
    by_cases hw : w = v
    · rw [if_pos hw, if_pos hw]
      cases m.get v with
      | none => rfl
      | some set =>
        -- a set that one deletion empties is empty after both
        have hempty : ∀ {a b : UInt32}, set.erase a = ∅ → (set.erase b).erase a = ∅ := by
          intro a b h
          rw [Finset.erase_right_comm, h, Finset.erase_empty]
        dsimp only [Option.bind_some]
        by_cases hi : set.erase i = ∅
        · rw [if_pos hi]
          by_cases hj : set.erase j = ∅
          · rw [if_pos hj]
            rfl
          · rw [if_neg hj, Option.bind_some, if_pos (hempty hi)]
            rfl
        · rw [if_neg hi]
          by_cases hj : set.erase j = ∅
          · rw [if_pos hj, Option.bind_some, if_pos (hempty hj)]
            rfl
          · rw [if_neg hj, Option.bind_some, Option.bind_some, Finset.erase_right_comm]
    · simp only [if_neg hw]
  · rw [if_neg huv, if_neg (Ne.symm huv)]
    by_cases hv : w = v
    · rw [if_pos hv, if_neg (fun hu => huv (hv.symm.trans hu)), if_pos hv]
    · rw [if_neg hv, if_neg hv]

theorem evictRound_comm (cutoff : Time) : RightCommutative (evictRound cutoff) where
  right_comm p e f := by
    unfold evictRound
    split_ifs
    · unfold release reap
      dsimp only
      rw [GoMap.del_comm p.byAlloc, GoMap.del_comm p.src2id, GoMap.del_comm p.pending,
        GoMap.del_comm p.queued, dropURI_comm]
    · rfl
    · rfl
    · rfl

/-- The eviction loop of `gcOnce` does the same in any order. -/
theorem evictIdle_perm {l l' : List (UInt32 × AllocEntry)} (h : l.Perm l') (p : Plane)
    (now : Time) : p.evictIdle now l = p.evictIdle now l' :=
  have := evictRound_comm (now - p.idleTTL)
  h.foldl_eq p

theorem forgetAgentRound_of_none {acc : Plane × ℕ} (h : acc.fst.byAlloc.get id = none) :
    forgetAgentRound acc id = acc := by
  unfold forgetAgentRound
  rw [h]

theorem forgetAgentRound_of_some {acc : Plane × ℕ} {entry : AllocEntry}
    (h : acc.fst.byAlloc.get id = some entry) :
    forgetAgentRound acc id
      = ({ acc.fst.reap id with
          byAlloc := acc.fst.byAlloc.del id
          src2id := acc.fst.src2id.del entry.src }, acc.snd + 1) := by
  unfold forgetAgentRound
  rw [h]

theorem forgetAgentRound_comm : RightCommutative forgetAgentRound where
  right_comm acc i j := by
    by_cases hij : i = j
    · rw [hij]
    -- the round at one id leaves the entry of the other
    have hround : ∀ {a b : UInt32}, b ≠ a →
        (forgetAgentRound acc a).fst.byAlloc.get b = acc.fst.byAlloc.get b := by
      intro a b hab
      rw [forgetAgentRound_byAlloc, if_neg hab]
    cases hi : acc.fst.byAlloc.get i with
    | none => rw [forgetAgentRound_of_none hi, forgetAgentRound_of_none ((hround hij).trans hi)]
    | some a =>
      cases hj : acc.fst.byAlloc.get j with
      | none =>
        rw [forgetAgentRound_of_none hj, forgetAgentRound_of_none ((hround (Ne.symm hij)).trans hj)]
      | some b =>
        rw [forgetAgentRound_of_some ((hround (Ne.symm hij)).trans hj),
          forgetAgentRound_of_some ((hround hij).trans hi), forgetAgentRound_of_some hi,
          forgetAgentRound_of_some hj]
        unfold reap
        dsimp only
        rw [GoMap.del_comm acc.fst.byAlloc, GoMap.del_comm acc.fst.src2id,
          GoMap.del_comm acc.fst.pending, GoMap.del_comm acc.fst.queued]

/-- `ForgetAgent` does the same in any order. -/
theorem forgetAgent_perm {l l' : List UInt32} (h : l.Perm l') (p : Plane) (uri : GoString) :
    p.forgetAgent uri l = p.forgetAgent uri l' := by
  have := forgetAgentRound_comm
  unfold forgetAgent
  rw [h.foldl_eq (p, 0)]

/-! ## The core -/

/-- **The plane without its waiting rooms.** -/
def core (p : Plane) : Plane := { p with pending := ∅, queued := ∅ }

theorem eq_of_core_eq (h : p.core = q.core) :
    q = { p with pending := q.pending, queued := q.queued } := by
  have hq : { q.core with pending := q.pending, queued := q.queued } = q := rfl
  rw [← hq, ← h]
  rfl

theorem byAlloc_eq_of_core_eq (h : p.core = q.core) : q.byAlloc = p.byAlloc := by
  rw [eq_of_core_eq h]

theorem byURI_eq_of_core_eq (h : p.core = q.core) : q.byURI = p.byURI := by
  rw [eq_of_core_eq h]

theorem idleTTL_eq_of_core_eq (h : p.core = q.core) : q.idleTTL = p.idleTTL := by
  rw [eq_of_core_eq h]

theorem core_allocate {p' q' : Plane} {i j : UInt32} (h : p.core = q.core)
    (hp : p.allocate uri now = some (p', i)) (hq : q.allocate uri now = some (q', j)) :
    p'.core = q'.core := by
  rw [eq_of_core_eq h] at hq
  unfold allocate at hp hq
  split_ifs at hp hq
  cases hp
  cases hq
  rfl

theorem core_rebind (h : p.core = q.core) (id : UInt32) (entry : AllocEntry) (src : AddrPort)
    (now : Time) : (p.rebind id entry src now).core = (q.rebind id entry src now).core := by
  rw [eq_of_core_eq h]
  unfold rebind
  split_ifs <;> rfl

theorem core_touch (h : p.core = q.core) (src : AddrPort) (now : Time) :
    (p.touch src now).core = (q.touch src now).core := by
  rw [eq_of_core_eq h]
  unfold touch
  dsimp only
  split
  · rfl
  · split <;> rfl

theorem core_release (h : p.core = q.core) (id : UInt32) (entry : AllocEntry) :
    (p.release id entry).core = (q.release id entry).core := by
  rw [eq_of_core_eq h]
  rfl

theorem core_forget (h : p.core = q.core) (id : UInt32) :
    (p.forget id).core = (q.forget id).core := by
  rw [eq_of_core_eq h]
  unfold forget
  dsimp only
  split <;> rfl

theorem core_forgetAgent (h : p.core = q.core) (uri : GoString) (order : List UInt32) :
    (p.forgetAgent uri order).fst.core = (q.forgetAgent uri order).fst.core := by
  have hround : ∀ {p q : Plane} {n : ℕ} (id : UInt32), p.core = q.core →
      (forgetAgentRound (p, n) id).fst.core = (forgetAgentRound (q, n) id).fst.core
        ∧ (forgetAgentRound (p, n) id).snd = (forgetAgentRound (q, n) id).snd := by
    intro p q n id h
    rw [eq_of_core_eq h]
    unfold forgetAgentRound
    dsimp only
    split <;> exact ⟨rfl, rfl⟩
  have hloop : ∀ (l : List UInt32) (acc bcc : Plane × ℕ), acc.fst.core = bcc.fst.core →
      acc.snd = bcc.snd →
      (l.foldl forgetAgentRound acc).fst.core = (l.foldl forgetAgentRound bcc).fst.core := by
    intro l
    induction l with
    | nil => exact fun acc bcc h _ => h
    | cons id l ih =>
      rintro ⟨p, n⟩ ⟨q, m⟩ h hn
      obtain rfl : n = m := hn
      exact ih _ _ (hround id h).1 (hround id h).2
  unfold forgetAgent
  rw [byURI_eq_of_core_eq h]
  split_ifs
  · exact h
  · split
    · exact h
    · have hfold := hloop order (p, 0) (q, 0) h rfl
      dsimp only
      rw [eq_of_core_eq hfold]
      rfl

theorem core_evictIdle (h : p.core = q.core) (now : Time) (l : List (UInt32 × AllocEntry)) :
    (p.evictIdle now l).core = (q.evictIdle now l).core := by
  have hloop : ∀ (cutoff : Time) (l : List (UInt32 × AllocEntry)) (p q : Plane), p.core = q.core →
      (l.foldl (evictRound cutoff) p).core = (l.foldl (evictRound cutoff) q).core := by
    intro cutoff l
    induction l with
    | nil => exact fun p q h => h
    | cons e l ih =>
      intro p q h
      refine ih _ _ ?_
      unfold evictRound
      split_ifs
      · exact core_release h e.fst e.snd
      · exact h
  unfold evictIdle
  rw [idleTTL_eq_of_core_eq h]
  exact hloop _ l p q h

/-- Arming that drains nothing leaves the core. -/
theorem core_armPending_of_not_drains {nonce : Nonce}
    (h : ∀ src, ¬ p.Drains id uri nonce now src) :
    (p.armPending id uri nonce now).fst.core = p.core := by
  rcases armPending_cases p id uri nonce now with
    ⟨-, heq⟩ | ⟨entry, he, hown, huri, -, heq | ⟨q, hq, hexp, hnonce, -⟩⟩
  · rw [heq]
  · rw [heq]
    rfl
  · exact absurd ⟨huri, hown ▸ ownerOf_of_get he, q, hq, hexp, hnonce, rfl⟩ (h q.src)

/-- So does a punch that does not bind. -/
theorem core_register_of_not_binds {nonce : Nonce} {now' : Time} (h : ¬ p.Binds id nonce now')
    (src : AddrPort) (now : Time) : (p.register id src nonce now now').core = p.core := by
  rcases register_cases p id src nonce now now' with
    ⟨-, heq⟩ | heq | heq | ⟨pend, entry, hp, hexp, hnonce, he, -⟩
  · rw [heq]
    rfl
  · rw [heq]
    rfl
  · rw [heq]
  · exact absurd ⟨⟨entry, he⟩, pend, hp, hexp, hnonce⟩ h

end Plane

/-! ## The same operation -/

/-- **The operation without the orders of its loops.** -/
def PlaneEvent.op : PlaneEvent → PlaneEvent
  | .forgetAgent uri _ => .forgetAgent uri []
  | .gcOnce now _ _ _ => .gcOnce now [] [] []
  | e => e

namespace PlaneState

variable {s s' t t' : PlaneState} {e f : PlaneEvent}

/-- **Planes with one core keep one core**, as long as they bind alike. -/
theorem core_step (hcore : s.plane.core = t.plane.core) (hop : e.op = f.op)
    (hb : ∀ id src, s.plane.BindsTo id src e ↔ t.plane.BindsTo id src f)
    (hs : s.step e = some s') (ht : t.step f = some t') : s'.plane.core = t'.plane.core := by
  have hby := Plane.byAlloc_eq_of_core_eq hcore
  cases e with
  | allocate uri now =>
    cases f <;> cases hop
    simp only [step] at hs ht
    split_ifs at hs ht
    obtain ⟨⟨p, i⟩, hp, rfl⟩ := Option.map_eq_some_iff.mp hs
    obtain ⟨⟨q, j⟩, hq, rfl⟩ := Option.map_eq_some_iff.mp ht
    exact Plane.core_allocate hcore hp hq
  | armPending id uri nonce now =>
    cases f <;> cases hop
    simp only [step] at hs ht
    split_ifs at hs ht
    cases hs
    cases ht
    dsimp only
    by_cases hd : ∃ src, s.plane.Drains id uri nonce now src
    · obtain ⟨src, hd⟩ := hd
      obtain ⟨entry, he, heq⟩ := hd.armPending_eq
      obtain ⟨entry', he', heq'⟩ := ((hb id src).mp ⟨rfl, hd⟩).2.armPending_eq
      rw [hby] at he'
      cases he.symm.trans he'
      rw [heq, heq']
      refine Plane.core_rebind ?_ id entry src now
      exact hcore
    · rw [Plane.core_armPending_of_not_drains (not_exists.mp hd),
        Plane.core_armPending_of_not_drains (fun src h => hd ⟨src, ((hb id src).mpr ⟨rfl, h⟩).2⟩)]
      exact hcore
  | datagram buf src now now' =>
    cases f <;> cases hop
    simp only [step, Plane.recv] at hs ht
    split_ifs at hs ht
    cases hs
    cases ht
    cases hdec : Packet.decode buf with
    | punch id nonce =>
      dsimp only
      by_cases hd : s.plane.Binds id nonce now'
      · obtain ⟨entry, he, heq⟩ := hd.register_eq src now
        obtain ⟨-, n, hn, hd'⟩ := (hb id src).mp ⟨rfl, nonce, hdec, hd⟩
        cases hdec.symm.trans hn
        obtain ⟨entry', he', heq'⟩ := hd'.register_eq src now
        rw [hby] at he'
        cases he.symm.trans he'
        rw [heq, heq']
        exact Plane.core_rebind hcore id entry src now
      · have hd' : ¬ t.plane.Binds id nonce now' := by
          intro h
          obtain ⟨-, n, hn, h'⟩ := (hb id src).mpr ⟨rfl, nonce, hdec, h⟩
          cases hdec.symm.trans hn
          exact hd h'
        rw [Plane.core_register_of_not_binds hd, Plane.core_register_of_not_binds hd']
        exact hcore
    | data id payload => exact Plane.core_touch hcore src now
    | short => exact hcore
    | badRegistration => exact hcore
  | forget id =>
    cases f <;> cases hop
    cases hs
    cases ht
    exact Plane.core_forget hcore id
  | forgetAgent uri order =>
    cases f <;> cases hop
    rename_i order'
    simp only [step] at hs ht
    split_ifs at hs ht with ho ho'
    cases hs
    cases ht
    have hperm : order.Perm order' := by
      refine List.perm_of_nodup_nodup_toFinset_eq ho.1 ho'.1 ?_
      rw [ho.2, ho'.2, Plane.byURI_eq_of_core_eq hcore]
    dsimp only
    rw [Plane.forgetAgent_perm hperm]
    exact Plane.core_forgetAgent hcore uri order'
  | gcOnce now allocs pends punches =>
    cases f <;> cases hop
    rename_i allocs' pends' punches'
    simp only [step] at hs ht
    split_ifs at hs ht with hg hg'
    cases hs
    cases ht
    have hallocs' : s.plane.byAlloc.RangeOrder allocs' := hby ▸ hg'.2.1
    show (s.plane.evictIdle now allocs).core = (t.plane.evictIdle now allocs').core
    rw [Plane.evictIdle_perm (hg.2.1.perm hallocs')]
    exact Plane.core_evictIdle hcore now allocs'

end PlaneState

/-! ## The rows of an id -/

namespace Plane

variable {p q : Plane} {id k : UInt32} {uri : GoString} {now : Time}

/-- The rows of an id in the two waiting rooms. -/
@[ext] structure Row where
  pending : Option PendingEntry
  queued : Option QueuedPunch

/-- The rows of `k`. -/
def row (p : Plane) (k : UInt32) : Row := ⟨p.pending.get k, p.queued.get k⟩

/-- `gcOnce` evicts `k`. -/
def Evicts (p : Plane) (k : UInt32) (now : Time) : Prop :=
  ∃ entry, p.byAlloc.get k = some entry ∧ entry.lastSeen < now - p.idleTTL

instance (p : Plane) (k : UInt32) (now : Time) : Decidable (p.Evicts k now) :=
  match h : p.byAlloc.get k with
  | none => isFalse (fun ⟨_, he, _⟩ => by rw [h] at he; cases he)
  | some entry => decidable_of_iff (entry.lastSeen < now - p.idleTTL)
      ⟨fun hidle => ⟨entry, h, hidle⟩, fun ⟨e, he, hidle⟩ => by
        rw [h] at he
        cases he
        exact hidle⟩

/-- **What an operation does to the rows of `k`**, given the core. -/
def rowAfter (p : Plane) (k : UInt32) (r : Row) : PlaneEvent → Row
  | .allocate _ _ => r
  | .armPending id uri nonce now =>
    if id = k ∧ uri ≠ [] ∧ p.ownerOf k = some uri then
      if ∃ q ∈ r.queued, now < q.expires ∧ q.nonce = nonce then ⟨r.pending, none⟩
      else ⟨some ⟨uri, nonce, now + p.ttl⟩, none⟩
    else r
  | .datagram buf src now now' =>
    match Packet.decode buf with
    | .punch id nonce =>
      if id = k then
        match r.pending with
        | none => ⟨none, some ⟨src, nonce, now + p.ttl⟩⟩
        | some pend => if now' ≤ pend.expires ∧ pend.nonce ≠ nonce then r else ⟨none, r.queued⟩
      else r
    | _ => r
  | .forget id => if id = k then ⟨none, none⟩ else r
  | .forgetAgent uri _ =>
    if uri ≠ [] ∧ k ∈ (p.byURI.get uri).getD ∅ ∧ p.byAlloc.get k ≠ none then ⟨none, none⟩ else r
  | .gcOnce now _ _ _ =>
    if p.Evicts k now then ⟨none, none⟩
    else ⟨r.pending.filter (fun x => now ≤ x.expires), r.queued.filter (fun x => now ≤ x.expires)⟩

/-- The orders of the loops play no part. -/
theorem rowAfter_op (p : Plane) (k : UInt32) (r : Row) (e : PlaneEvent) :
    p.rowAfter k r e.op = p.rowAfter k r e := by
  cases e <;> rfl

/-- Only the core is read. -/
theorem rowAfter_congr (h : p.core = q.core) (k : UInt32) (r : Row) (e : PlaneEvent) :
    p.rowAfter k r e = q.rowAfter k r e := by
  rw [eq_of_core_eq h]
  rfl

/-- The owner can arm. -/
theorem armPending_ok (hown : p.ownerOf id = some uri) (huri : uri ≠ []) (nonce : Nonce)
    (now : Time) : (p.armPending id uri nonce now).snd = .ok () := by
  obtain ⟨entry, he, rfl⟩ := Option.map_eq_some_iff.mp hown
  unfold armPending
  rw [if_neg huri, he]
  dsimp only
  rw [if_neg (not_not.mpr rfl)]
  split
  · rfl
  · split_ifs <;> rfl

theorem row_armPending (p : Plane) (id : UInt32) (uri : GoString) (nonce : Nonce) (now : Time)
    (k : UInt32) :
    (p.armPending id uri nonce now).fst.row k
      = p.rowAfter k (p.row k) (.armPending id uri nonce now) := by
  dsimp only [rowAfter]
  by_cases hk : id = k ∧ uri ≠ [] ∧ p.ownerOf k = some uri
  · rw [if_pos hk]
    obtain ⟨rfl, huri, hown⟩ := hk
    by_cases hd : ∃ q ∈ (p.row id).queued, now < q.expires ∧ q.nonce = nonce
    · rw [if_pos hd]
      obtain ⟨q, hq, hexp, hnonce⟩ := hd
      obtain ⟨entry, -, heq⟩ := Drains.armPending_eq (p := p) ⟨huri, hown, q, hq, hexp, hnonce, rfl⟩
      rw [heq]
      ext1
      · exact congrArg (GoMap.get · id) (rebind_pending _ _ _ _ _)
      · exact (congrArg (GoMap.get · id) (rebind_queued _ _ _ _ _)).trans (GoMap.get_del_self _ _)
    · rw [if_neg hd]
      rcases armPending_cases p id uri nonce now with
        ⟨⟨err, herr⟩, -⟩ | ⟨_, -, -, -, -, heq | ⟨q, hq, hexp, hnonce, -⟩⟩
      · cases (armPending_ok hown huri nonce now).symm.trans herr
      · rw [heq]
        ext1
        · exact GoMap.get_set_self _ _ _
        · exact GoMap.get_del_self _ _
      · exact absurd ⟨q, hq, hexp, hnonce⟩ hd
  · rw [if_neg hk]
    rcases armPending_cases p id uri nonce now with
      ⟨-, heq⟩ | ⟨entry, he, hown, huri, -, heq⟩
    · rw [heq]
    · have hne : k ≠ id := by
        rintro rfl
        exact hk ⟨rfl, huri, hown ▸ ownerOf_of_get he⟩
      rcases heq with heq | ⟨q, -, -, -, heq⟩
      · rw [heq]
        ext1
        · exact GoMap.get_set_of_ne _ _ hne
        · exact GoMap.get_del_of_ne _ hne
      · rw [heq]
        ext1
        · exact congrArg (GoMap.get · k) (rebind_pending _ _ _ _ _)
        · exact (congrArg (GoMap.get · k) (rebind_queued _ _ _ _ _)).trans
            (GoMap.get_del_of_ne _ hne)

theorem row_register (p : Plane) (id : UInt32) (src : AddrPort) (nonce : Nonce) (now now' : Time)
    (k : UInt32) :
    (p.register id src nonce now now').row k
      = if id = k then
          match p.pending.get k with
          | none => ⟨none, some ⟨src, nonce, now + p.ttl⟩⟩
          | some pend =>
            if now' ≤ pend.expires ∧ pend.nonce ≠ nonce then p.row k else ⟨none, p.queued.get k⟩
        else p.row k := by
  by_cases hk : id = k
  · subst hk
    rw [if_pos rfl]
    unfold register
    cases hp : p.pending.get id with
    | none =>
      ext1
      · exact hp
      · exact GoMap.get_set_self _ _ _
    | some pend =>
      dsimp only
      by_cases hexp : pend.expires < now'
      · rw [if_pos hexp, if_neg (fun h => absurd h.1 (not_le.mpr hexp))]
        ext1
        · exact GoMap.get_del_self _ _
        · rfl
      · rw [if_neg hexp]
        by_cases hnonce : pend.nonce ≠ nonce
        · rw [if_pos hnonce, if_pos ⟨not_lt.mp hexp, hnonce⟩]
        · rw [if_neg hnonce, if_neg (fun h => hnonce h.2)]
          cases p.byAlloc.get id with
          | none =>
            ext1
            · exact GoMap.get_del_self _ _
            · rfl
          | some entry =>
            ext1
            · exact GoMap.get_del_self _ _
            · exact congrArg (GoMap.get · id) (rebind_queued _ _ _ _ _)
  · rw [if_neg hk]
    rcases register_cases p id src nonce now now' with
      ⟨-, heq⟩ | heq | heq | ⟨pend, entry, -, -, -, -, heq⟩
    · rw [heq]
      ext1
      · rfl
      · exact GoMap.get_set_of_ne _ _ (Ne.symm hk)
    · rw [heq]
      ext1
      · exact GoMap.get_del_of_ne _ (Ne.symm hk)
      · rfl
    · rw [heq]
    · rw [heq]
      ext1
      · exact GoMap.get_del_of_ne _ (Ne.symm hk)
      · exact congrArg (GoMap.get · k) (rebind_queued _ _ _ _ _)

theorem row_reap (p : Plane) (id k : UInt32) :
    (p.reap id).row k = if id = k then ⟨none, none⟩ else p.row k := by
  unfold row reap
  rw [GoMap.get_del, GoMap.get_del]
  by_cases hk : id = k
  · rw [if_pos hk, if_pos hk.symm, if_pos hk.symm]
  · rw [if_neg hk, if_neg (Ne.symm hk), if_neg (Ne.symm hk)]

theorem row_forget (p : Plane) (id k : UInt32) :
    (p.forget id).row k = if id = k then ⟨none, none⟩ else p.row k := by
  unfold forget
  split
  · exact row_reap p id k
  · exact row_reap (p.release id _) id k

theorem row_forgetAgent {order : List UInt32} (ho : p.SetOrder uri order) (k : UInt32) :
    (p.forgetAgent uri order).fst.row k = p.rowAfter k (p.row k) (.forgetAgent uri order) := by
  have hloop : ∀ (l : List UInt32) (acc : Plane × ℕ),
      (l.foldl forgetAgentRound acc).fst.row k
        = if k ∈ l ∧ acc.fst.byAlloc.get k ≠ none then ⟨none, none⟩ else acc.fst.row k := by
    intro l
    induction l with
    | nil => exact fun acc => (if_neg (fun h => List.not_mem_nil h.1)).symm
    | cons id l ih =>
      intro acc
      rw [List.foldl_cons, ih]
      cases hid : acc.fst.byAlloc.get id with
      | none =>
        rw [forgetAgentRound_of_none hid]
        refine if_congr ⟨fun h => ⟨List.mem_cons_of_mem _ h.1, h.2⟩, fun h => ⟨?_, h.2⟩⟩ rfl rfl
        refine (List.mem_cons.mp h.1).resolve_left ?_
        rintro rfl
        exact h.2 hid
      | some entry =>
        rw [forgetAgentRound_byAlloc]
        have hrow : (forgetAgentRound acc id).fst.row k
            = if id = k then ⟨none, none⟩ else acc.fst.row k := by
          rw [forgetAgentRound_of_some hid]
          exact row_reap acc.fst id k
        rw [hrow]
        by_cases hk : id = k
        · subst hk
          rw [if_pos rfl, if_pos rfl, ite_self, if_pos ⟨List.mem_cons_self, by rw [hid]; simp⟩]
        · rw [if_neg hk, if_neg (Ne.symm hk)]
          refine if_congr ?_ rfl rfl
          rw [List.mem_cons, or_iff_right (Ne.symm hk)]
  have hmem : k ∈ (p.byURI.get uri).getD ∅ ↔ k ∈ order := by
    rw [← ho.2, List.mem_toFinset]
  dsimp only [rowAfter]
  unfold forgetAgent
  by_cases huri : uri = []
  · rw [if_pos huri, if_neg (fun h => h.1 huri)]
  · rw [if_neg huri]
    cases hset : p.byURI.get uri with
    | none =>
      rw [if_neg (fun h => Finset.notMem_empty k h.2.1)]
    | some set =>
      rw [hset] at hmem
      refine (hloop order (p, 0)).trans (if_congr ?_ rfl rfl)
      rw [hmem]
      exact ⟨fun h => ⟨huri, h⟩, fun h => h.2⟩

/-- The sweep of a waiting room, read at any id. -/
theorem get_sweep {ν : Type} (expires : ν → Time) (now : Time) {m : GoMap UInt32 ν}
    {order : List (UInt32 × ν)} (ho : m.RangeOrder order) (k : UInt32) :
    (sweep expires now m order).get k = (m.get k).filter (fun x => now ≤ expires x) := by
  unfold sweep
  rw [ho.get_delAll_filter (fun x => expires x < now)]
  congr 1
  funext x
  rw [← decide_not, decide_eq_decide]
  exact not_lt

theorem row_gcOnce {allocs : List (UInt32 × AllocEntry)} {pends : List (UInt32 × PendingEntry)}
    {punches : List (UInt32 × QueuedPunch)} (ho : p.GCOrders now allocs pends punches)
    (k : UInt32) :
    (p.gcOnce now allocs pends punches).row k
      = p.rowAfter k (p.row k) (.gcOnce now allocs pends punches) := by
  have hround : ∀ (q : Plane) (e : UInt32 × AllocEntry),
      (evictRound (now - p.idleTTL) q e).row k
        = if e.fst = k ∧ e.snd.lastSeen < now - p.idleTTL then ⟨none, none⟩ else q.row k := by
    intro q e
    unfold evictRound
    by_cases hidle : e.snd.lastSeen < now - p.idleTTL
    · rw [if_pos hidle]
      refine (row_reap (q.release e.fst e.snd) e.fst k).trans (if_congr ?_ rfl rfl)
      exact ⟨fun h => ⟨h, hidle⟩, fun h => h.1⟩
    · rw [if_neg hidle, if_neg (fun h => hidle h.2)]
  have hevict : (∃ e ∈ allocs, e.fst = k ∧ e.snd.lastSeen < now - p.idleTTL) ↔ p.Evicts k now := by
    constructor
    · rintro ⟨⟨i, entry⟩, he, rfl, hidle⟩
      exact ⟨entry, (ho.1.mem_iff i entry).mp he, hidle⟩
    · rintro ⟨entry, he, hidle⟩
      exact ⟨(k, entry), (ho.1.mem_iff k entry).mpr he, rfl, hidle⟩
  have hrow : (p.evictIdle now allocs).row k
      = if p.Evicts k now then ⟨none, none⟩ else p.row k :=
    (GoMap.foldl_clears (fun q : Plane => q.row k) hround allocs p).trans
      (if_congr hevict rfl rfl)
  have hsweep : (p.gcOnce now allocs pends punches).row k
      = ⟨((p.evictIdle now allocs).row k).pending.filter (fun x => now ≤ x.expires),
        ((p.evictIdle now allocs).row k).queued.filter (fun x => now ≤ x.expires)⟩ := by
    ext1
    · exact get_sweep PendingEntry.expires now ho.2.1 k
    · exact get_sweep QueuedPunch.expires now ho.2.2 k
  rw [hsweep, hrow]
  dsimp only [rowAfter]
  split_ifs <;> rfl

end Plane

/-- **The rows of an id after an operation** depend on the core and on these
rows. -/
theorem PlaneState.row_step {s s' : PlaneState} {e : PlaneEvent} (hstep : s.step e = some s')
    (k : UInt32) : s'.plane.row k = s.plane.rowAfter k (s.plane.row k) e := by
  cases e with
  | allocate uri now =>
    simp only [step] at hstep
    split_ifs at hstep
    obtain ⟨⟨q, i⟩, hq, rfl⟩ := Option.map_eq_some_iff.mp hstep
    obtain ⟨-, -, -, -, -, hpend, hqueued⟩ := Plane.allocate_byAlloc hq
    unfold Plane.row
    rw [hpend, hqueued]
    rfl
  | armPending id uri nonce now =>
    simp only [step] at hstep
    split_ifs at hstep
    cases hstep
    exact Plane.row_armPending s.plane id uri nonce now k
  | datagram buf src now now' =>
    simp only [step, Plane.recv] at hstep
    split_ifs at hstep
    cases hstep
    dsimp only [Plane.rowAfter]
    cases Packet.decode buf with
    | punch id nonce => exact Plane.row_register s.plane id src nonce now now' k
    | data id payload =>
      unfold Plane.row
      dsimp only
      rw [(Plane.touch_rooms s.plane src now).1, (Plane.touch_rooms s.plane src now).2.1]
    | short => rfl
    | badRegistration => rfl
  | forget id =>
    cases hstep
    exact Plane.row_forget s.plane id k
  | forgetAgent uri order =>
    simp only [step] at hstep
    split_ifs at hstep with ho
    cases hstep
    exact Plane.row_forgetAgent ho k
  | gcOnce now allocs pends punches =>
    simp only [step] at hstep
    split_ifs at hstep with hg
    cases hstep
    exact Plane.row_gcOnce hg.2 k
