import OutRelay.Plane

/-!
# Keeping the tables of the plane in agreement

Five tables describe the same allocations, and seven operations update them
with early returns, rebinding and expiry. `Plane.TableInv` says how they
agree: `byURI` is the exact inverse of ownership, `src2id` points only at
allocations bound where it says, `pending` holds only rows of live
allocations armed by their owner, an id is never in both waiting rooms, and
`0` is never issued.

Each operation keeps the agreement, one lemma per operation. The only one
that needs an assumption is `Plane.allocate`, which must not hand out an id
that is still live. The handshake is inverted once, by `armPending_cases`
and `register_cases`, and the three releases have one specification,
`Released`; what later modules say about a step they derive from these.
-/

namespace Plane

variable {p : Plane} {id : UInt32} {entry : AllocEntry} {src : AddrPort}
  {uri : GoString} {now : Time}

/-- `id` is in the set of `u`. -/
def Owned (m : GoMap GoString (Finset UInt32)) (u : GoString) (id : UInt32) : Prop :=
  ∃ set, m.get u = some set ∧ id ∈ set

/-- **The tables agree.** -/
structure TableInv (p : Plane) : Prop where
  /-- `byURI` lists, per owner, exactly the live allocations it owns. -/
  owned_iff : ∀ u id, Owned p.byURI u id ↔ p.ownerOf id = some u
  /-- No owner is kept with an empty set. -/
  nonempty : ∀ u set, p.byURI.get u = some set → set.Nonempty
  /-- The reverse index points at a live allocation bound to that address. -/
  src2id : ∀ s id, p.src2id.get s = some id → p.lookup id = some s ∧ s.IsValid
  /-- An armed nonce belongs to the owner of a live allocation. -/
  pending : ∀ id pend, p.pending.get id = some pend → p.ownerOf id = some pend.uri
  /-- No id waits in both rooms. -/
  exclusive : ∀ id, p.pending.get id = none ∨ p.queued.get id = none
  /-- `0` is never an allocation. -/
  zero : p.byAlloc.get 0 = none

/-! ## The owner index -/

/-- Taking an id out of one owner's set, read at any owner and id. -/
theorem owned_dropURI (m : GoMap GoString (Finset UInt32)) (uri u : GoString)
    (id k : UInt32) :
    Owned (dropURI m uri id) u k ↔ Owned m u k ∧ ¬ (u = uri ∧ k = id) := by
  unfold Owned dropURI
  cases hm : m.get uri with
  | none =>
    refine ⟨fun ⟨set, hs, hk⟩ => ⟨⟨set, hs, hk⟩, ?_⟩, fun h => h.1⟩
    rintro ⟨rfl, -⟩
    rw [hm] at hs
    cases hs
  | some set =>
    by_cases hu : u = uri
    · subst hu
      dsimp only
      split_ifs with he
      · have hset : ∀ x ∈ set, x = id := fun x hx => by
          by_contra hne
          exact Finset.notMem_empty x (he ▸ Finset.mem_erase.mpr ⟨hne, hx⟩)
        rw [GoMap.get_del_self, hm]
        constructor
        · rintro ⟨_, h, -⟩
          cases h
        · rintro ⟨⟨_, h, hk⟩, hne⟩
          cases h
          exact absurd ⟨rfl, hset k hk⟩ hne
      · rw [GoMap.get_set_self, hm]
        constructor
        · rintro ⟨_, h, hk⟩
          cases h
          exact ⟨⟨set, rfl, Finset.mem_of_mem_erase hk⟩,
            fun h => Finset.ne_of_mem_erase hk h.2⟩
        · rintro ⟨⟨_, h, hk⟩, hne⟩
          cases h
          exact ⟨_, rfl, Finset.mem_erase.mpr ⟨fun h => hne ⟨rfl, h⟩, hk⟩⟩
    · have hget : (if set.erase id = ∅ then m.del uri
          else m.set uri (set.erase id)).get u = m.get u := by
        split_ifs
        · exact GoMap.get_del_of_ne m hu
        · exact GoMap.get_set_of_ne m _ hu
      dsimp only
      rw [hget]
      exact ⟨fun h => ⟨h, fun h' => hu h'.1⟩, fun h => h.1⟩

/-- Putting an id into one owner's set, read at any owner and id. -/
theorem owned_insert (m : GoMap GoString (Finset UInt32)) (uri u : GoString)
    (id k : UInt32) :
    Owned (m.set uri (insert id ((m.get uri).getD ∅))) u k
      ↔ (u = uri ∧ k = id) ∨ Owned m u k := by
  unfold Owned
  rw [GoMap.get_set]
  by_cases hu : u = uri
  · subst hu
    rw [if_pos rfl]
    cases m.get u <;> simp
  · simp [hu]

/-- Taking an id out leaves no empty set behind. -/
theorem nonempty_dropURI {m : GoMap GoString (Finset UInt32)}
    (h : ∀ u set, m.get u = some set → set.Nonempty) (uri : GoString) (id : UInt32)
    (u : GoString) (set : Finset UInt32) (hu : (dropURI m uri id).get u = some set) :
    set.Nonempty := by
  unfold dropURI at hu
  cases hm : m.get uri with
  | none =>
    rw [hm] at hu
    exact h u set hu
  | some old =>
    rw [hm] at hu
    dsimp only at hu
    split_ifs at hu with he
    · rw [GoMap.get_del] at hu
      split_ifs at hu with hk
      exact h u set hu
    · rw [GoMap.get_set] at hu
      split_ifs at hu with hk
      · cases hu
        exact Finset.nonempty_iff_ne_empty.mpr he
      · exact h u set hu

/-! ## Reading `byAlloc` through its two accessors

The invariant speaks of an entry only through its owner and its address. What
an operation does to `byAlloc` is therefore said once, on `ownerOf` and
`lookup`. -/

theorem ownerOf_of_get (h : p.byAlloc.get id = some entry) :
    p.ownerOf id = some entry.uri := by
  rw [ownerOf, h]; rfl

theorem lookup_of_get (h : p.byAlloc.get id = some entry) :
    p.lookup id = some entry.src := by
  rw [lookup, h]; rfl

theorem ownerOf_eq_none : p.ownerOf id = none ↔ p.byAlloc.get id = none :=
  Option.map_eq_none_iff

/-- The invariant is one of the owner, the address and the other tables. -/
theorem TableInv.congr {q : Plane} (h : p.TableInv) (hown : q.ownerOf = p.ownerOf)
    (hlook : q.lookup = p.lookup) (huri : q.byURI = p.byURI)
    (hsrc : q.src2id = p.src2id) (hpend : q.pending = p.pending)
    (hqueued : q.queued = p.queued) : q.TableInv := by
  refine ⟨?_, ?_, ?_, ?_, ?_, ?_⟩
  · rw [hown, huri]; exact h.owned_iff
  · rw [huri]; exact h.nonempty
  · rw [hsrc, hlook]; exact h.src2id
  · rw [hpend, hown]; exact h.pending
  · rw [hpend, hqueued]; exact h.exclusive
  · rw [← ownerOf_eq_none, hown, ownerOf_eq_none]; exact h.zero

/-! ## Operations on one allocation -/

/-- Rewriting an entry without changing its owner changes no owner. -/
theorem ownerOf_setEntry {q : Plane} {entry' : AllocEntry}
    (hq : q.byAlloc = p.byAlloc.set id entry') (he : p.byAlloc.get id = some entry)
    (huri : entry'.uri = entry.uri) : q.ownerOf = p.ownerOf := by
  funext k
  unfold ownerOf
  rw [hq, GoMap.get_set]
  split_ifs with hk
  · rw [hk, he]
    exact congrArg some huri
  · rfl

/-- Rewriting an entry, read at any address. -/
theorem lookup_setEntry {entry' : AllocEntry} {q : Plane}
    (hq : q.byAlloc = p.byAlloc.set id entry') (k : UInt32) :
    q.lookup k = if k = id then some entry'.src else p.lookup k := by
  unfold lookup
  rw [hq, GoMap.get_set]
  split_ifs <;> rfl

/-- Rewriting an entry without moving it or changing its owner keeps the
tables in agreement. -/
theorem TableInv.setEntry (h : p.TableInv) {entry' : AllocEntry}
    (he : p.byAlloc.get id = some entry) (huri : entry'.uri = entry.uri)
    (hsrc : entry'.src = entry.src) :
    TableInv { p with byAlloc := p.byAlloc.set id entry' } := by
  refine h.congr (ownerOf_setEntry rfl he huri) ?_ rfl rfl rfl rfl
  funext k
  rw [lookup_setEntry (p := p) rfl k]
  split_ifs with hk
  · rw [hk, lookup_of_get he, hsrc]
  · rfl

section Rebind

variable (p : Plane) (id : UInt32) (entry : AllocEntry) (src : AddrPort) (now : Time)

@[simp] theorem rebind_byURI : (p.rebind id entry src now).byURI = p.byURI := by
  unfold Plane.rebind; split_ifs <;> rfl

@[simp] theorem rebind_pending : (p.rebind id entry src now).pending = p.pending := by
  unfold Plane.rebind; split_ifs <;> rfl

@[simp] theorem rebind_queued : (p.rebind id entry src now).queued = p.queued := by
  unfold Plane.rebind; split_ifs <;> rfl

@[simp] theorem rebind_nextID : (p.rebind id entry src now).nextID = p.nextID := by
  unfold Plane.rebind; split_ifs <;> rfl

@[simp] theorem rebind_pendingTTL :
    (p.rebind id entry src now).pendingTTL = p.pendingTTL := by
  unfold Plane.rebind; split_ifs <;> rfl

/-- Binding leaves the allocation at `src`, seen now, with its owner. -/
theorem rebind_byAlloc :
    (p.rebind id entry src now).byAlloc = p.byAlloc.set id ⟨entry.uri, src, now⟩ := by
  unfold Plane.rebind
  by_cases hne : entry.src = src
  · rw [if_neg (not_not.mpr hne), ← hne]
  · rw [if_pos hne]

/-- The reverse index after a binding: the new address points at the
allocation, the one it left points nowhere, every other is as it was. -/
theorem rebind_src2id (hne : entry.src ≠ src) (s : AddrPort) :
    (p.rebind id entry src now).src2id.get s
      = if s = src then some id
        else if s = entry.src ∧ entry.src.IsValid then none else p.src2id.get s := by
  unfold Plane.rebind
  rw [if_pos hne, GoMap.get_set]
  by_cases hs : s = src
  · rw [if_pos hs, if_pos hs]
  · rw [if_neg hs, if_neg hs]
    by_cases hold : entry.src.IsValid
    · rw [if_pos hold, GoMap.get_del]
      simp [hold]
    · rw [if_neg hold, if_neg (fun h => hold h.2)]

theorem rebind_src2id_of_eq (h : entry.src = src) :
    (p.rebind id entry src now).src2id = p.src2id := by
  unfold Plane.rebind
  rw [if_neg (not_not.mpr h)]

end Rebind

/-- **Binding an address keeps the tables in agreement.** -/
theorem TableInv.rebind (h : p.TableInv) (he : p.byAlloc.get id = some entry)
    (hv : src.IsValid) : (p.rebind id entry src now).TableInv := by
  have hown : (p.rebind id entry src now).ownerOf = p.ownerOf :=
    ownerOf_setEntry (rebind_byAlloc p id entry src now) he rfl
  have hlook := lookup_setEntry (rebind_byAlloc p id entry src now)
  refine ⟨?_, ?_, fun s k hk => ?_, ?_, ?_, ?_⟩
  · rw [hown, rebind_byURI]; exact h.owned_iff
  · rw [rebind_byURI]; exact h.nonempty
  · by_cases hne : entry.src = src
    · rw [rebind_src2id_of_eq p id entry src now hne] at hk
      obtain ⟨hks, hsv⟩ := h.src2id s k hk
      refine ⟨?_, hsv⟩
      rw [hlook]
      split_ifs with hid
      · rw [← hks, hid, lookup_of_get he, hne]
      · exact hks
    · rw [rebind_src2id p id entry src now hne] at hk
      split_ifs at hk with hs hold
      · cases hk
        rw [hlook, if_pos rfl, hs]
        exact ⟨rfl, hv⟩
      · obtain ⟨hks, hsv⟩ := h.src2id s k hk
        refine ⟨?_, hsv⟩
        -- an index at `id` can only be its old address, which was dropped
        rw [hlook, if_neg, hks]
        rintro rfl
        rw [lookup_of_get he] at hks
        cases hks
        exact hold ⟨rfl, hsv⟩
  · rw [hown, rebind_pending]; exact h.pending
  · rw [rebind_pending, rebind_queued]; exact h.exclusive
  · rw [← ownerOf_eq_none, hown, ownerOf_eq_none]; exact h.zero

/-- Marking a sender seen keeps the tables in agreement. -/
theorem TableInv.touch (h : p.TableInv) : (p.touch src now).TableInv := by
  unfold Plane.touch
  split
  · exact h
  · split
    · exact h
    · rename_i hsender
      exact h.setEntry hsender rfl rfl

/-! ## Releasing allocations

`Forget`, `ForgetAgent` and `gcOnce` are three routines with one effect, on a
different list of ids. `Released p q D` is that effect: in `q` the
allocations of `D` are gone from every table, the reverse index has lost the
addresses they were bound to, and nothing else has changed except that
waiting handshake rows may have been dropped. -/

/-- **`q` is `p` with the allocations of `D` released.** -/
structure Released (p q : Plane) (D : List UInt32) : Prop where
  byAlloc : ∀ k, q.byAlloc.get k = if k ∈ D then none else p.byAlloc.get k
  owned : ∀ u k, Owned q.byURI u k ↔ Owned p.byURI u k ∧ k ∉ D
  nonempty : ∀ u set, q.byURI.get u = some set → set.Nonempty
  src2id : ∀ s, q.src2id.get s
    = if ∃ k ∈ D, p.lookup k = some s then none else p.src2id.get s
  pending : ∀ k pend, q.pending.get k = some pend → p.pending.get k = some pend ∧ k ∉ D
  queued : ∀ k q', q.queued.get k = some q' → p.queued.get k = some q' ∧ k ∉ D
  nextID : q.nextID = p.nextID
  pendingTTL : q.pendingTTL = p.pendingTTL

theorem Released.lookup {q : Plane} {D : List UInt32} (hr : Released p q D)
    (k : UInt32) : q.lookup k = if k ∈ D then none else p.lookup k := by
  unfold Plane.lookup
  rw [hr.byAlloc]
  split_ifs <;> rfl

theorem Released.ownerOf {q : Plane} {D : List UInt32} (hr : Released p q D)
    (k : UInt32) : q.ownerOf k = if k ∈ D then none else p.ownerOf k := by
  unfold Plane.ownerOf
  rw [hr.byAlloc]
  split_ifs <;> rfl

/-- **Releasing allocations keeps the tables in agreement.** -/
theorem TableInv.released (h : p.TableInv) {q : Plane} {D : List UInt32}
    (hr : Released p q D) : q.TableInv := by
  refine ⟨fun u k => ?_, hr.nonempty, fun s k hk => ?_, fun k pend hk => ?_,
    fun k => ?_, ?_⟩
  · rw [hr.owned, h.owned_iff, hr.ownerOf]
    split_ifs with hD
    · simp [hD]
    · simp [hD]
  · rw [hr.src2id] at hk
    split_ifs at hk with hD
    obtain ⟨hks, hv⟩ := h.src2id s k hk
    refine ⟨?_, hv⟩
    rw [hr.lookup, if_neg (fun hkD => hD ⟨k, hkD, hks⟩), hks]
  · obtain ⟨hpend, hD⟩ := hr.pending k pend hk
    rw [hr.ownerOf, if_neg hD]
    exact h.pending k pend hpend
  · cases hp : q.pending.get k with
    | none => exact Or.inl rfl
    | some pend =>
      right
      by_contra hq
      obtain ⟨q', hq'⟩ := Option.ne_none_iff_exists'.mp hq
      have hpp := (hr.pending k pend hp).1
      have hqq := (hr.queued k q' hq').1
      rcases h.exclusive k with hn | hn
      · rw [hn] at hpp; cases hpp
      · rw [hn] at hqq; cases hqq
  · rw [hr.byAlloc]
    split_ifs
    · rfl
    · exact h.zero

/-- Releasing in two rounds releases both lists. -/
theorem Released.trans {q r : Plane} {D E : List UInt32} (hD : Released p q D)
    (hE : Released q r E) : Released p r (D ++ E) := by
  refine ⟨fun k => ?_, fun u k => ?_, hE.nonempty, fun s => ?_, fun k pend hk => ?_,
    fun k q' hk => ?_, hE.nextID.trans hD.nextID, hE.pendingTTL.trans hD.pendingTTL⟩
  · rw [hE.byAlloc, hD.byAlloc]
    by_cases h₁ : k ∈ D <;> by_cases h₂ : k ∈ E <;> simp [h₁, h₂]
  · rw [hE.owned, hD.owned, List.mem_append, not_or, and_assoc]
  · rw [hE.src2id, hD.src2id]
    by_cases h₁ : ∃ k ∈ D, p.lookup k = some s
    · rw [if_pos h₁, ite_self, if_pos]
      obtain ⟨k, hk, hs⟩ := h₁
      exact ⟨k, List.mem_append_left _ hk, hs⟩
    · -- an address not dropped in the first round is dropped in the second
      -- exactly when an allocation of `E` was bound to it all along
      rw [if_neg h₁]
      refine if_congr ⟨?_, ?_⟩ rfl rfl
      · rintro ⟨k, hk, hs⟩
        rw [hD.lookup] at hs
        split_ifs at hs
        exact ⟨k, List.mem_append_right _ hk, hs⟩
      · rintro ⟨k, hk, hs⟩
        have hkD : k ∉ D := fun h => h₁ ⟨k, h, hs⟩
        refine ⟨k, (List.mem_append.mp hk).resolve_left hkD, ?_⟩
        rw [hD.lookup, if_neg hkD, hs]
  · obtain ⟨hk₁, hkE⟩ := hE.pending k pend hk
    obtain ⟨hk₂, hkD⟩ := hD.pending k pend hk₁
    exact ⟨hk₂, fun h => (List.mem_append.mp h).elim hkD hkE⟩
  · obtain ⟨hk₁, hkE⟩ := hE.queued k q' hk
    obtain ⟨hk₂, hkD⟩ := hD.queued k q' hk₁
    exact ⟨hk₂, fun h => (List.mem_append.mp h).elim hkD hkE⟩

/-- Dropping handshake rows alone releases nothing. -/
theorem released_nil (hne : ∀ u set, p.byURI.get u = some set → set.Nonempty)
    (m : GoMap UInt32 PendingEntry) (n : GoMap UInt32 QueuedPunch)
    (hm : ∀ k pend, m.get k = some pend → p.pending.get k = some pend)
    (hn : ∀ k q, n.get k = some q → p.queued.get k = some q) :
    Released p { p with pending := m, queued := n } [] := by
  refine ⟨fun k => ?_, fun u k => ?_, hne, fun s => ?_, fun k pend hk => ?_,
    fun k q hk => ?_, rfl, rfl⟩
  · rw [if_neg List.not_mem_nil]
  · exact ⟨fun ho => ⟨ho, List.not_mem_nil⟩, fun ho => ho.1⟩
  · rw [if_neg (fun h => List.not_mem_nil h.choose_spec.1)]
  · exact ⟨hm k pend hk, List.not_mem_nil⟩
  · exact ⟨hn k q hk, List.not_mem_nil⟩

/-- **A live allocation, released and reaped.** -/
theorem released_one (hne : ∀ u set, p.byURI.get u = some set → set.Nonempty)
    (hown : ∀ u, Owned p.byURI u id → u = entry.uri)
    (he : p.byAlloc.get id = some entry) :
    Released p ((p.release id entry).reap id) [id] := by
  have hmem : ∀ k, k ∈ [id] ↔ k = id := fun k => List.mem_singleton
  refine ⟨fun k => ?_, fun u k => ?_, nonempty_dropURI hne entry.uri id, fun s => ?_,
    fun k pend hk => ?_, fun k q hk => ?_, rfl, rfl⟩
  · simp only [hmem]
    exact GoMap.get_del _ _ _
  · refine (owned_dropURI p.byURI entry.uri u id k).trans (and_congr_right fun ho => ?_)
    rw [hmem]
    constructor
    · rintro hu rfl
      exact hu ⟨hown u ho, rfl⟩
    · exact fun hk hu => hk hu.2
  · refine (GoMap.get_del p.src2id entry.src s).trans (if_congr ?_ rfl rfl)
    constructor
    · rintro rfl
      exact ⟨id, List.mem_singleton_self id, lookup_of_get he⟩
    · rintro ⟨k, hk, hs⟩
      rw [(hmem k).mp hk, lookup_of_get he] at hs
      exact (Option.some.inj hs).symm
  · rw [hmem]
    exact GoMap.of_get_del hk
  · rw [hmem]
    exact GoMap.of_get_del hk

/-- `Forget` releases the allocation if it is live. -/
theorem TableInv.released_forget (h : p.TableInv) (id : UInt32) :
    Released p (p.forget id) (if (p.byAlloc.get id).isSome then [id] else []) := by
  unfold forget
  cases he : p.byAlloc.get id with
  | none =>
    exact released_nil h.nonempty _ _ (fun k _ hk => (GoMap.of_get_del hk).1)
      (fun k _ hk => (GoMap.of_get_del hk).1)
  | some entry =>
    refine released_one h.nonempty (fun u hu => ?_) he
    rw [h.owned_iff, ownerOf_of_get he] at hu
    exact (Option.some.inj hu).symm

/-- The eviction loop releases the allocations it finds idle. -/
theorem TableInv.released_evict (h : p.TableInv) (cutoff : Time)
    (l : List (UInt32 × AllocEntry)) (hnd : (l.map Prod.fst).Nodup)
    (hl : ∀ e ∈ l, p.byAlloc.get e.fst = some e.snd) :
    Released p (l.foldl (evictRound cutoff) p)
      ((l.filter (fun e => e.snd.lastSeen < cutoff)).map Prod.fst) := by
  induction l generalizing p with
  | nil => exact released_nil h.nonempty _ _ (fun _ _ hk => hk) (fun _ _ hk => hk)
  | cons e l ih =>
    obtain ⟨hnotin, hnd⟩ := List.nodup_cons.mp hnd
    have he := hl e List.mem_cons_self
    show Released p (l.foldl (evictRound cutoff) (evictRound cutoff p e)) _
    by_cases hidle : e.snd.lastSeen < cutoff
    · have hone : Released p ((p.release e.fst e.snd).reap e.fst) [e.fst] := by
        refine released_one h.nonempty (fun u hu => ?_) he
        rw [h.owned_iff, ownerOf_of_get he] at hu
        exact (Option.some.inj hu).symm
      rw [evictRound, if_pos hidle, List.filter_cons_of_pos (by simpa using hidle)]
      refine hone.trans (ih (h.released hone) hnd (fun e' he' => ?_))
      rw [hone.byAlloc, if_neg, hl e' (List.mem_cons_of_mem _ he')]
      intro hk
      exact hnotin (List.mem_singleton.mp hk ▸ List.mem_map_of_mem he')
    · rw [evictRound, if_neg hidle, List.filter_cons_of_neg (by simpa using hidle)]
      exact ih h hnd (fun e' he' => hl e' (List.mem_cons_of_mem _ he'))

/-- `gcOnce` releases the allocations not seen since the cutoff. -/
theorem TableInv.released_gcOnce (h : p.TableInv)
    {allocs : List (UInt32 × AllocEntry)} (hallocs : p.byAlloc.RangeOrder allocs)
    (pends : List (UInt32 × PendingEntry)) (punches : List (UInt32 × QueuedPunch)) :
    Released p (p.gcOnce now allocs pends punches)
      ((allocs.filter (fun e => e.snd.lastSeen < now - p.idleTTL)).map Prod.fst) := by
  have hevict : Released p (p.evictIdle now allocs) _ :=
    h.released_evict (now - p.idleTTL) allocs hallocs.nodup
      (fun e he => (hallocs.mem_iff e.fst e.snd).mp he)
  rw [← List.append_nil (List.map Prod.fst _)]
  refine hevict.trans (released_nil hevict.nonempty _ _ (fun k _ hk => ?_) (fun k _ hk => ?_))
  · exact (GoMap.of_get_delAll hk).1
  · exact (GoMap.of_get_delAll hk).1

/-- **The loop of `ForgetAgent` in closed form**, over live allocations. -/
theorem foldl_forgetAgentRound (order : List UInt32) (hnd : order.Nodup)
    (hlive : ∀ id ∈ order, ∃ e, p.byAlloc.get id = some e) (n : ℕ) :
    order.foldl forgetAgentRound (p, n)
      = ({ p with
          byAlloc := p.byAlloc.delAll order
          src2id := p.src2id.delAll (order.filterMap p.lookup)
          pending := p.pending.delAll order
          queued := p.queued.delAll order }, n + order.length) := by
  induction order generalizing p n with
  | nil => rfl
  | cons id order ih =>
    obtain ⟨hnotin, hnd⟩ := List.nodup_cons.mp hnd
    obtain ⟨entry, he⟩ := hlive id List.mem_cons_self
    have hround : forgetAgentRound (p, n) id
        = ({ p.reap id with
            byAlloc := p.byAlloc.del id
            src2id := p.src2id.del entry.src }, n + 1) := by
      unfold forgetAgentRound
      rw [he]
    have hget : ∀ k ∈ order, (p.byAlloc.del id).get k = p.byAlloc.get k := fun k hk =>
      GoMap.get_del_of_ne _ (fun h => hnotin (h ▸ hk))
    rw [List.foldl_cons, hround, ih hnd (fun k hk => ?_)]
    · have hlook : order.filterMap (fun k => ((p.byAlloc.del id).get k).map AllocEntry.src)
          = order.filterMap p.lookup :=
        List.filterMap_congr (fun k hk => by rw [hget k hk]; rfl)
      rw [List.filterMap_cons_some (lookup_of_get he), List.length_cons,
        show n + 1 + order.length = n + (order.length + 1) from by omega, ← hlook]
      rfl
    · obtain ⟨e, hek⟩ := hlive k (List.mem_cons_of_mem _ hk)
      exact ⟨e, (hget k hk).trans hek⟩

/-- The order of `ForgetAgent` lists the ids the agent owns. -/
theorem TableInv.mem_setOrder (h : p.TableInv) {order : List UInt32}
    (ho : p.SetOrder uri order) (id : UInt32) :
    id ∈ order ↔ p.ownerOf id = some uri := by
  rw [← List.mem_toFinset, ho.2, ← h.owned_iff, Owned]
  cases p.byURI.get uri <;> simp

/-- `ForgetAgent` releases the allocations of the agent. -/
theorem TableInv.released_forgetAgent (h : p.TableInv) {order : List UInt32}
    (ho : p.SetOrder uri order) :
    Released p (p.forgetAgent uri order).fst (if uri = [] then [] else order) := by
  unfold forgetAgent
  by_cases huri : uri = []
  · rw [if_pos huri, if_pos huri]
    exact released_nil h.nonempty _ _ (fun _ _ hk => hk) (fun _ _ hk => hk)
  rw [if_neg huri, if_neg huri]
  cases hset : p.byURI.get uri with
  | none =>
    have hnil : order = [] := by
      rw [← List.toFinset_eq_empty_iff, ho.2, hset]
      rfl
    rw [hnil]
    exact released_nil h.nonempty _ _ (fun _ _ hk => hk) (fun _ _ hk => hk)
  | some set =>
    have hlive : ∀ id ∈ order, ∃ e, p.byAlloc.get id = some e := fun id hid => by
      have hown := (h.mem_setOrder ho id).mp hid
      exact (Option.map_eq_some_iff.mp hown).imp (fun _ he => he.1)
    dsimp only
    rw [foldl_forgetAgentRound order ho.1 hlive]
    refine ⟨fun k => GoMap.get_delAll _ _ _, fun u k => ?_, fun u set' hu => ?_,
      fun s => ?_, fun k _ hk => GoMap.of_get_delAll hk, fun k _ hk => GoMap.of_get_delAll hk,
      rfl, rfl⟩
    · show Owned (p.byURI.del uri) u k ↔ Owned p.byURI u k ∧ k ∉ order
      by_cases hu : u = uri
      · -- the agent's own set is gone, and it was exactly `order`
        subst hu
        rw [h.mem_setOrder ho, h.owned_iff, Owned, GoMap.get_del_self]
        simp
      · rw [h.mem_setOrder ho]
        have hsame : Owned (p.byURI.del uri) u k ↔ Owned p.byURI u k := by
          unfold Owned
          rw [GoMap.get_del_of_ne _ hu]
        rw [hsame, h.owned_iff]
        refine ⟨fun hk => ⟨hk, fun hk' => hu ?_⟩, fun hk => hk.1⟩
        rw [hk] at hk'
        exact Option.some.inj hk'
    · have hu' : (p.byURI.del uri).get u = some set' := hu
      rw [GoMap.get_del] at hu'
      split_ifs at hu'
      exact h.nonempty u set' hu'
    · refine (GoMap.get_delAll _ _ _).trans (if_congr ?_ rfl rfl)
      rw [List.mem_filterMap]

/-! ## What a release can do, whatever the state

`Released` says exactly what a release does and rests on the tables
agreeing. Even when they do not – once the counter has gone round – a
release only ever deletes rows. -/

/-- **`q` is `p` with some rows deleted.** -/
structure Shrinks (p q : Plane) : Prop where
  byAlloc : ∀ k e, q.byAlloc.get k = some e → p.byAlloc.get k = some e
  src2id : ∀ s k, q.src2id.get s = some k → p.src2id.get s = some k
  pending : ∀ k pend, q.pending.get k = some pend → p.pending.get k = some pend
  queued : ∀ k q', q.queued.get k = some q' → p.queued.get k = some q'
  nextID : q.nextID = p.nextID
  pendingTTL : q.pendingTTL = p.pendingTTL

theorem Shrinks.refl (p : Plane) : Shrinks p p :=
  ⟨fun _ _ h => h, fun _ _ h => h, fun _ _ h => h, fun _ _ h => h, rfl, rfl⟩

theorem Shrinks.trans {q r : Plane} (h : Shrinks p q) (h' : Shrinks q r) : Shrinks p r :=
  ⟨fun k e hk => h.byAlloc k e (h'.byAlloc k e hk),
    fun s k hk => h.src2id s k (h'.src2id s k hk),
    fun k e hk => h.pending k e (h'.pending k e hk),
    fun k e hk => h.queued k e (h'.queued k e hk),
    h'.nextID.trans h.nextID, h'.pendingTTL.trans h.pendingTTL⟩

/-- A loop whose rounds only delete rows only deletes rows. -/
theorem shrinks_foldl {α : Type} (f : Plane → α → Plane) (hf : ∀ p a, Shrinks p (f p a))
    (l : List α) (p : Plane) : Shrinks p (l.foldl f p) := by
  induction l generalizing p with
  | nil => exact Shrinks.refl p
  | cons a l ih => exact (hf p a).trans (ih (f p a))

theorem shrinks_reap (p : Plane) (id : UInt32) : Shrinks p (p.reap id) :=
  ⟨fun _ _ h => h, fun _ _ h => h, fun _ _ h => (GoMap.of_get_del h).1,
    fun _ _ h => (GoMap.of_get_del h).1, rfl, rfl⟩

theorem shrinks_release (p : Plane) (id : UInt32) (entry : AllocEntry) :
    Shrinks p (p.release id entry) :=
  ⟨fun _ _ h => (GoMap.of_get_del h).1,
    fun _ _ h => (GoMap.of_get_del h).1,
    fun _ _ h => h, fun _ _ h => h, rfl, rfl⟩

theorem shrinks_forget (p : Plane) (id : UInt32) : Shrinks p (p.forget id) := by
  unfold forget
  split
  · exact shrinks_reap p id
  · exact (shrinks_release p id _).trans (shrinks_reap _ id)

theorem shrinks_forgetAgentRound (acc : Plane × ℕ) (id : UInt32) :
    Shrinks acc.fst (forgetAgentRound acc id).fst := by
  unfold forgetAgentRound
  split
  · exact Shrinks.refl _
  · rename_i entry _
    have h := (shrinks_release acc.fst id entry).trans (shrinks_reap _ id)
    exact ⟨h.byAlloc, h.src2id, h.pending, h.queued, h.nextID, h.pendingTTL⟩

theorem shrinks_forgetAgent (p : Plane) (uri : GoString) (order : List UInt32) :
    Shrinks p (p.forgetAgent uri order).fst := by
  have hloop : ∀ (l : List UInt32) (acc : Plane × ℕ),
      Shrinks acc.fst (l.foldl forgetAgentRound acc).fst := by
    intro l
    induction l with
    | nil => exact fun acc => Shrinks.refl _
    | cons id l ih => exact fun acc => (shrinks_forgetAgentRound acc id).trans (ih _)
  unfold forgetAgent
  split_ifs
  · exact Shrinks.refl p
  · split
    · exact Shrinks.refl p
    · have h := hloop order (p, 0)
      exact ⟨h.byAlloc, h.src2id, h.pending, h.queued, h.nextID, h.pendingTTL⟩

theorem shrinks_gcOnce (p : Plane) (now : Time) (allocs : List (UInt32 × AllocEntry))
    (pends : List (UInt32 × PendingEntry)) (punches : List (UInt32 × QueuedPunch)) :
    Shrinks p (p.gcOnce now allocs pends punches) := by
  have hevict : Shrinks p (p.evictIdle now allocs) := by
    refine shrinks_foldl _ (fun p e => ?_) allocs p
    unfold evictRound
    split_ifs
    · exact (shrinks_release p e.fst e.snd).trans (shrinks_reap _ e.fst)
    · exact Shrinks.refl p
  exact hevict.trans ⟨fun _ _ h => h, fun _ _ h => h,
    fun _ _ h => (GoMap.of_get_delAll h).1, fun _ _ h => (GoMap.of_get_delAll h).1, rfl, rfl⟩

/-! ## Valid addresses

An address enters the reverse index from a punch, directly or by way of the
queue. Punches come from valid addresses, so the index and the queue hold no
other – whatever the allocation counter does. -/

/-- **Only valid addresses are kept.** -/
structure SrcInv (p : Plane) : Prop where
  src2id : ∀ s id, p.src2id.get s = some id → s.IsValid
  queued : ∀ id q, p.queued.get id = some q → q.src.IsValid

theorem SrcInv.shrinks {q : Plane} (h : p.SrcInv) (hs : Shrinks p q) : q.SrcInv :=
  ⟨fun s k hk => h.src2id s k (hs.src2id s k hk),
    fun k q' hk => h.queued k q' (hs.queued k q' hk)⟩

theorem SrcInv.rebind (h : p.SrcInv) (hv : src.IsValid) :
    (p.rebind id entry src now).SrcInv := by
  refine ⟨fun s k hk => ?_, fun k q hk => h.queued k q ?_⟩
  · by_cases hne : entry.src = src
    · rw [rebind_src2id_of_eq p id entry src now hne] at hk
      exact h.src2id s k hk
    · rw [rebind_src2id p id entry src now hne] at hk
      split_ifs at hk with hs
      · exact hs ▸ hv
      · exact h.src2id s k hk
  · rwa [rebind_queued] at hk

/-! ## The handshake -/

/-- **What `ArmPending` can do**: fail and change nothing, install the nonce
after using up a queued punch that does not match, or bind the queued punch
that does. -/
theorem armPending_cases (p : Plane) (id : UInt32) (uri : GoString) (nonce : Nonce)
    (now : Time) :
    ((∃ e, (p.armPending id uri nonce now).snd = .error e)
      ∧ (p.armPending id uri nonce now).fst = p)
    ∨ ∃ entry, p.byAlloc.get id = some entry ∧ entry.uri = uri ∧ uri ≠ []
      ∧ (p.armPending id uri nonce now).snd = .ok ()
      ∧ ((p.armPending id uri nonce now).fst
            = { p with
                pending := p.pending.set id ⟨uri, nonce, now + p.ttl⟩
                queued := p.queued.del id }
        ∨ ∃ q, p.queued.get id = some q ∧ now < q.expires ∧ q.nonce = nonce
          ∧ (p.armPending id uri nonce now).fst
            = Plane.rebind { p with queued := p.queued.del id } id entry q.src now) := by
  unfold armPending
  split_ifs with huri
  · exact Or.inl ⟨⟨_, rfl⟩, rfl⟩
  split
  · exact Or.inl ⟨⟨_, rfl⟩, rfl⟩
  rename_i entry he
  split_ifs with hown
  · exact Or.inl ⟨⟨_, rfl⟩, rfl⟩
  refine Or.inr ⟨entry, he, not_not.mp hown, huri, ?_⟩
  split
  · rename_i hq
    refine ⟨rfl, Or.inl ?_⟩
    rw [GoMap.del_of_get_none hq]
  · rename_i q hq
    dsimp only
    split_ifs with hmatch
    · exact ⟨rfl, Or.inr ⟨q, hq, hmatch.1, hmatch.2, rfl⟩⟩
    · exact ⟨rfl, Or.inl rfl⟩

/-- **What a punch can do**: wait in the queue, drop an expired nonce or one
whose allocation is gone, change nothing, or bind and use the nonce up. -/
theorem register_cases (p : Plane) (id : UInt32) (src : AddrPort) (nonce : Nonce)
    (now now' : Time) :
    (p.pending.get id = none ∧ p.register id src nonce now now'
        = { p with queued := p.queued.set id ⟨src, nonce, now + p.ttl⟩ })
    ∨ p.register id src nonce now now' = { p with pending := p.pending.del id }
    ∨ p.register id src nonce now now' = p
    ∨ ∃ pend entry, p.pending.get id = some pend ∧ now' ≤ pend.expires
      ∧ pend.nonce = nonce ∧ p.byAlloc.get id = some entry
      ∧ p.register id src nonce now now'
        = { p.rebind id entry src now with pending := p.pending.del id } := by
  unfold register
  split
  · rename_i hp
    exact Or.inl ⟨hp, rfl⟩
  rename_i pend hp
  split_ifs with hexp hnonce
  · exact Or.inr (Or.inl rfl)
  · exact Or.inr (Or.inr (Or.inl rfl))
  split
  · exact Or.inr (Or.inl rfl)
  · rename_i entry he
    refine Or.inr (Or.inr (Or.inr ⟨pend, entry, hp, not_lt.mp hexp, not_not.mp hnonce, he, ?_⟩))
    dsimp only
    rw [rebind_pending]

/-- Arming keeps the tables in agreement. -/
theorem TableInv.armPending (h : p.TableInv) (hs : p.SrcInv) (id : UInt32)
    (uri : GoString) (nonce : Nonce) (now : Time) :
    (p.armPending id uri nonce now).fst.TableInv := by
  have hdel : TableInv { p with queued := p.queued.del id } :=
    h.released (released_nil h.nonempty _ _ (fun _ _ hk => hk)
      (fun _ _ hk => (GoMap.of_get_del hk).1))
  rcases armPending_cases p id uri nonce now with
    ⟨-, heq⟩ | ⟨entry, he, hown, -, -, heq | ⟨q, hq, -, -, heq⟩⟩
  · rw [heq]; exact h
  · rw [heq]
    refine ⟨h.owned_iff, h.nonempty, h.src2id, fun k pend hk => ?_, fun k => ?_, h.zero⟩
    · have hk' : (p.pending.set id _).get k = some pend := hk
      rw [GoMap.get_set] at hk'
      split_ifs at hk' with hkid
      · cases hk'
        exact (hkid ▸ ownerOf_of_get he).trans (congrArg some hown)
      · exact h.pending k pend hk'
    · by_cases hkid : k = id
      · exact Or.inr (hkid ▸ GoMap.get_del_self _ _)
      · refine (h.exclusive k).imp (fun hp => ?_) (fun hq => ?_)
        · exact (GoMap.get_set_of_ne _ _ hkid).trans hp
        · exact (GoMap.get_del_of_ne _ hkid).trans hq
  · rw [heq]
    exact hdel.rebind he (hs.queued id q hq)

theorem SrcInv.armPending (hs : p.SrcInv) (id : UInt32) (uri : GoString)
    (nonce : Nonce) (now : Time) : (p.armPending id uri nonce now).fst.SrcInv := by
  have hdel : SrcInv { p with queued := p.queued.del id } :=
    ⟨hs.src2id, fun k q hk => hs.queued k q (GoMap.of_get_del hk).1⟩
  rcases armPending_cases p id uri nonce now with
    ⟨-, heq⟩ | ⟨entry, -, -, -, -, heq | ⟨q, hq, -, -, heq⟩⟩
  · rw [heq]; exact hs
  · rw [heq]; exact ⟨hdel.src2id, hdel.queued⟩
  · rw [heq]
    exact hdel.rebind (hs.queued id q hq)

/-- A punch keeps the tables in agreement. -/
theorem TableInv.register (h : p.TableInv) (hv : src.IsValid) (id : UInt32)
    (nonce : Nonce) (now now' : Time) :
    (p.register id src nonce now now').TableInv := by
  have hdel : ∀ {q : Plane}, q.TableInv →
      TableInv { q with pending := q.pending.del id } := fun hq =>
    hq.released (released_nil hq.nonempty _ _
      (fun _ _ hk => (GoMap.of_get_del hk).1) (fun _ _ hk => hk))
  rcases register_cases p id src nonce now now' with
    ⟨hn, heq⟩ | heq | heq | ⟨pend, entry, -, -, -, he, heq⟩
  · rw [heq]
    refine ⟨h.owned_iff, h.nonempty, h.src2id, h.pending, fun k => ?_, h.zero⟩
    by_cases hkid : k = id
    · exact Or.inl (hkid ▸ hn)
    · exact (h.exclusive k).imp_right (GoMap.get_set_of_ne _ _ hkid).trans
  · rw [heq]; exact hdel h
  · rw [heq]; exact h
  · rw [heq, ← rebind_pending p id entry src now]
    exact hdel (h.rebind he hv)

theorem SrcInv.register (hs : p.SrcInv) (hv : src.IsValid) (id : UInt32)
    (nonce : Nonce) (now now' : Time) :
    (p.register id src nonce now now').SrcInv := by
  rcases register_cases p id src nonce now now' with
    ⟨-, heq⟩ | heq | heq | ⟨pend, entry, -, -, -, he, heq⟩
  · rw [heq]
    refine ⟨hs.src2id, fun k q hk => ?_⟩
    have hk' : (p.queued.set id _).get k = some q := hk
    rw [GoMap.get_set] at hk'
    split_ifs at hk'
    · cases hk'
      exact hv
    · exact hs.queued k q hk'
  · rw [heq]; exact ⟨hs.src2id, hs.queued⟩
  · rw [heq]; exact hs
  · rw [heq]
    have hre : (p.rebind id entry src now).SrcInv := hs.rebind hv
    exact ⟨hre.src2id, hre.queued⟩

theorem SrcInv.touch (hs : p.SrcInv) : (p.touch src now).SrcInv := by
  unfold Plane.touch
  split
  · exact hs
  · split
    · exact hs
    · exact ⟨hs.src2id, hs.queued⟩

/-! ## Issuing an allocation -/

theorem nextAllocID_ne_zero (n : UInt32) : nextAllocID n ≠ 0 := by
  unfold nextAllocID
  split_ifs with h
  · exact h
  · rw [not_not.mp h]
    decide

/-- The critical section of `Allocate`: the entry and its place in the owner index. -/
def insertEntry (p : Plane) (id : UInt32) (uri : GoString) (now : Time) : Plane :=
  { p with
    byAlloc := p.byAlloc.set id ⟨uri, AddrPort.zero, now⟩
    byURI := p.byURI.set uri (insert id ((p.byURI.get uri).getD ∅)) }

theorem insertEntry_ownerOf (p : Plane) (id k : UInt32) (uri : GoString) (now : Time) :
    (p.insertEntry id uri now).ownerOf k = if k = id then some uri else p.ownerOf k := by
  unfold ownerOf insertEntry
  rw [GoMap.get_set]
  split_ifs <;> rfl

/-- The counter is in no other table. -/
theorem TableInv.setNextID (h : p.TableInv) (n : UInt32) : { p with nextID := n }.TableInv :=
  ⟨h.owned_iff, h.nonempty, h.src2id, h.pending, h.exclusive, h.zero⟩

/-- **Inserting an id that is not live keeps the tables in agreement.** -/
theorem TableInv.insertEntry (h : p.TableInv) (hid : id ≠ 0) (hfresh : p.byAlloc.get id = none)
    (uri : GoString) (now : Time) : (p.insertEntry id uri now).TableInv := by
  have hown := fun k => p.insertEntry_ownerOf id k uri now
  have hlook : ∀ k, (p.insertEntry id uri now).lookup k
      = if k = id then some AddrPort.zero else p.lookup k := fun k => by
    unfold lookup Plane.insertEntry
    rw [GoMap.get_set]
    split_ifs <;> rfl
  have hnone : p.ownerOf id = none := ownerOf_eq_none.mpr hfresh
  have hlnone : p.lookup id = none := Option.map_eq_none_iff.mpr hfresh
  refine ⟨fun u k => ?_, fun u set hu => ?_, fun s k hk => ?_, fun k pend hk => ?_,
    h.exclusive, ?_⟩
  · refine (owned_insert p.byURI uri u id k).trans ?_
    rw [hown, h.owned_iff]
    split_ifs with hk
    · subst hk
      rw [hnone]
      simp [eq_comm]
    · simp [hk]
  · have hu' : (p.byURI.set uri _).get u = some set := hu
    rw [GoMap.get_set] at hu'
    split_ifs at hu'
    · cases hu'
      exact Finset.insert_nonempty _ _
    · exact h.nonempty u set hu'
  · obtain ⟨hks, hv⟩ := h.src2id s k hk
    refine ⟨?_, hv⟩
    rw [hlook, if_neg, hks]
    rintro rfl
    rw [hlnone] at hks
    cases hks
  · have hkp := h.pending k pend hk
    rw [hown, if_neg, hkp]
    rintro rfl
    rw [hnone] at hkp
    cases hkp
  · rw [← ownerOf_eq_none, hown, if_neg hid.symm, ownerOf_eq_none]
    exact h.zero

/-- **Issuing an id that is not live keeps the tables in agreement.** -/
theorem TableInv.allocate (h : p.TableInv) {q : Plane} {id : UInt32}
    (ha : p.allocate uri now = some (q, id)) (hfresh : p.byAlloc.get id = none) :
    q.TableInv := by
  unfold Plane.allocate at ha
  split_ifs at ha with huri
  cases ha
  exact (h.setNextID (nextAllocID p.nextID)).insertEntry (nextAllocID_ne_zero p.nextID) hfresh
    uri now

/-- The row `Allocate` adds. -/
theorem allocate_byAlloc {q : Plane} {id : UInt32}
    (ha : p.allocate uri now = some (q, id)) :
    id = nextAllocID p.nextID ∧ q.nextID = id ∧ q.pendingTTL = p.pendingTTL
      ∧ q.byAlloc = p.byAlloc.set id ⟨uri, AddrPort.zero, now⟩
      ∧ q.src2id = p.src2id ∧ q.pending = p.pending ∧ q.queued = p.queued := by
  unfold Plane.allocate at ha
  split_ifs at ha
  cases ha
  exact ⟨rfl, rfl, rfl, rfl, rfl, rfl, rfl⟩

end Plane
