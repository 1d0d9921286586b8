import Mathlib.Data.Nat.ModEq
import OutRelay.PlaneRelease

/-!
# The allocation counter going round

`Allocate` draws its id from an atomic 32-bit counter, outside the lock, and puts
it into the tables in a critical section. The counter goes round by design, past
`0`; nothing looks whether the id it comes back to is still live.

The two halves of a call are separate steps here, and the calls are numbered in
the order of their draws. The id is then a remainder of the number
(`Numbered.ids`), whatever the interleaving, so two calls share an id exactly
when their numbers differ by a multiple of `2 ^ 32 - 1`. That is the condition of
`allocSound_iff`: a run keeps the ids of its live allocations apart exactly when
no call inserts, and no holder forgets, while an allocation is live whose call is
such a multiple away.
-/

/-- A call of `Allocate` that has drawn its id; `inserted` once it has left its
critical section. -/
structure AllocCall where
  uri : GoString
  id : UInt32
  inserted : Bool

/-- The plane, the calls of `Allocate` in the order of their draws, and for each
id the call that inserted it last. The last two record the run: no operation
reads them. -/
structure WrapState where
  plane : Plane
  clock : Time
  calls : List AllocCall
  row : GoMap UInt32 ℕ

/-- One step: `nextID.Add(1)` in a call of `Allocate` for `uri`, the critical
section of a call, with the time it read before, a `Forget` by the holder of a
call's id, or another operation of the plane. -/
inductive WrapEvent
  | add (uri : GoString)
  | insert (k : ℕ) (now : Time)
  | forget (k : ℕ)
  | op (e : PlaneEvent)

/-- Is the event a call of `Forget`? -/
def PlaneEvent.isForget : PlaneEvent → Bool
  | .forget _ => true
  | _ => false

/-- `nextID.Add(1)`. -/
def Plane.add (p : Plane) : Plane := { p with nextID := p.nextID + 1 }

namespace WrapState

/-- **One step.** A call whose `Add` gives `0` is still in its loop, and adds again
in a later step. -/
def step (s : WrapState) : WrapEvent → Option WrapState
  | .add uri =>
    if uri = [] then none
    else if s.plane.nextID + 1 = 0 then some { s with plane := s.plane.add }
    else
      some { s with
        plane := s.plane.add
        calls := s.calls ++ [⟨uri, s.plane.nextID + 1, false⟩] }
  | .insert k now =>
    match s.calls[k]? with
    | none => none
    | some c =>
      if c.inserted = true then none
      else
        some { s with
          plane := s.plane.insertEntry c.id c.uri now
          calls := s.calls.set k { c with inserted := true }
          row := s.row.set c.id k }
  | .forget k =>
    match s.calls[k]? with
    | none => none
    | some c => if c.inserted = true then some { s with plane := s.plane.forget c.id } else none
  | .op e =>
    if e.isAllocate = true ∨ e.isForget = true then none
    else (PlaneState.step ⟨s.plane, s.clock⟩ e).map
      (fun t => { s with plane := t.plane, clock := t.clock })

end WrapState

/-- **The plane with split calls of `Allocate`.** -/
def wrapMachine (idleTTL pendingTTL start : Time) : Machine WrapState WrapEvent :=
  ⟨⟨Plane.newPlane idleTTL pendingTTL, start, [], ∅⟩, WrapState.step⟩

/-- **A call that nothing disturbs is `Plane.allocate`**: it adds once, or twice
where the counter goes round, and then inserts. -/
theorem Plane.allocate_eq_add (p : Plane) {uri : GoString} (huri : uri ≠ []) (now : Time) :
    p.allocate uri now
      = if p.nextID + 1 = 0 then some (p.add.add.insertEntry (p.nextID + 1 + 1) uri now,
          p.nextID + 1 + 1)
        else some (p.add.insertEntry (p.nextID + 1) uri now, p.nextID + 1) := by
  unfold allocate
  rw [if_neg huri]
  by_cases hzero : p.nextID + 1 = 0
  · rw [if_pos hzero, nextAllocID, if_neg (not_not.mpr hzero)]
    rfl
  · rw [if_neg hzero, nextAllocID, if_pos hzero]
    rfl

namespace WrapState

variable {s s' : WrapState} {e : WrapEvent}

/-- The steps, as a relation. -/
inductive Steps (s : WrapState) : WrapEvent → WrapState → Prop
  | skip (uri : GoString) (hzero : s.plane.nextID + 1 = 0) :
      Steps s (.add uri) { s with plane := s.plane.add }
  | draw (uri : GoString) (huri : uri ≠ []) (hzero : s.plane.nextID + 1 ≠ 0) :
      Steps s (.add uri) { s with
        plane := s.plane.add
        calls := s.calls ++ [⟨uri, s.plane.nextID + 1, false⟩] }
  | insert (k : ℕ) (now : Time) (c : AllocCall) (hc : s.calls[k]? = some c)
      (hnew : c.inserted = false) :
      Steps s (.insert k now) { s with
        plane := s.plane.insertEntry c.id c.uri now
        calls := s.calls.set k { c with inserted := true }
        row := s.row.set c.id k }
  | forget (k : ℕ) (c : AllocCall) (hc : s.calls[k]? = some c) (hin : c.inserted = true) :
      Steps s (.forget k) { s with plane := s.plane.forget c.id }
  | op (e : PlaneEvent) (t : PlaneState) (hna : e.isAllocate = false)
      (hop : PlaneState.step ⟨s.plane, s.clock⟩ e = some t) :
      Steps s (.op e) { s with plane := t.plane, clock := t.clock }

theorem steps_of_step (hstep : s.step e = some s') : s.Steps e s' := by
  cases e with
  | add uri =>
    simp only [step] at hstep
    split_ifs at hstep with huri hzero
    · cases hstep
      exact .skip uri hzero
    · cases hstep
      exact .draw uri huri hzero
  | insert k now =>
    simp only [step] at hstep
    split at hstep
    · cases hstep
    · next c hc =>
      split_ifs at hstep with hnew
      cases hstep
      exact .insert k now c hc (Bool.not_eq_true _ ▸ hnew)
  | forget k =>
    simp only [step] at hstep
    split at hstep
    · cases hstep
    · next c hc =>
      split_ifs at hstep with hin
      cases hstep
      exact .forget k c hc hin
  | op e =>
    simp only [step] at hstep
    split_ifs at hstep with hskip
    rw [not_or] at hskip
    obtain ⟨t, ht, rfl⟩ := Option.map_eq_some_iff.mp hstep
    exact .op e t (Bool.not_eq_true _ ▸ hskip.1) ht

/-! ## The numbers of the calls -/

/-- **The ids are the remainders of the numbers**, and the entries those of the
calls. None of this depends on which ids are live. -/
structure Numbered (s : WrapState) : Prop where
  counter : s.plane.nextID.toNat ≡ s.calls.length [MOD 2 ^ 32 - 1]
  ids : ∀ k c, s.calls[k]? = some c → c.id.toNat = k % (2 ^ 32 - 1) + 1 ∧ c.uri ≠ []
  rows : ∀ id k, s.row.get id = some k → ∃ c, s.calls[k]? = some c ∧ c.id = id ∧ c.inserted = true
  owners : ∀ id u, s.plane.ownerOf id = some u →
    ∃ k c, s.row.get id = some k ∧ s.calls[k]? = some c ∧ c.uri = u

/-- `Add` short of the wrap. -/
theorem toNat_add_one {n : UInt32} (hzero : n + 1 ≠ 0) :
    (n + 1).toNat = n.toNat + 1 ∧ n.toNat < 2 ^ 32 - 1 := by
  have hlt := n.toNat_lt
  have hsum : (n + 1).toNat = (n.toNat + 1) % 2 ^ 32 := UInt32.toNat_add n 1
  have hne : (n + 1).toNat ≠ 0 := fun h0 => hzero (UInt32.toNat_inj.mp h0)
  by_cases hwrap : n.toNat + 1 = 2 ^ 32
  · rw [hwrap, Nat.mod_self] at hsum
    exact absurd hsum hne
  · have hlt' : n.toNat + 1 < 2 ^ 32 := by omega
    exact ⟨hsum.trans (Nat.mod_eq_of_lt hlt'), by omega⟩

/-- The next id, from the number of calls so far. -/
theorem Numbered.next (h : s.Numbered) (hzero : s.plane.nextID + 1 ≠ 0) :
    (s.plane.nextID + 1).toNat = s.calls.length % (2 ^ 32 - 1) + 1 := by
  obtain ⟨hsucc, hlt⟩ := toNat_add_one hzero
  rw [hsucc, ← h.counter, Nat.mod_eq_of_lt hlt]

/-- Two calls share an id exactly when their numbers agree modulo `2 ^ 32 - 1`. -/
theorem Numbered.id_eq_iff (h : s.Numbered) {j k : ℕ} {c d : AllocCall}
    (hc : s.calls[k]? = some c) (hd : s.calls[j]? = some d) :
    d.id = c.id ↔ j ≡ k [MOD 2 ^ 32 - 1] := by
  rw [← UInt32.toNat_inj, (h.ids k c hc).1, (h.ids j d hd).1, Nat.ModEq, Nat.add_right_cancel_iff]

/-- A step that draws and inserts nothing keeps the numbering. -/
theorem Numbered.of_shrinks {p : Plane} {now : Time} (h : s.Numbered)
    (hnext : p.nextID = s.plane.nextID)
    (hown : ∀ id u, p.ownerOf id = some u → s.plane.ownerOf id = some u) :
    { s with plane := p, clock := now }.Numbered where
  counter := by
    show p.nextID.toNat ≡ s.calls.length [MOD 2 ^ 32 - 1]
    rw [hnext]
    exact h.counter
  ids := h.ids
  rows := h.rows
  owners id u hu := h.owners id u (hown id u hu)

/-- A new call keeps the others where they are. -/
theorem Numbered.draw (h : s.Numbered) {uri : GoString} (huri : uri ≠ [])
    (hzero : s.plane.nextID + 1 ≠ 0) :
    ({ s with
      plane := s.plane.add
      calls := s.calls ++ [⟨uri, s.plane.nextID + 1, false⟩] } : WrapState).Numbered := by
  have hold : ∀ {k : ℕ} {c d : AllocCall}, s.calls[k]? = some c → (s.calls ++ [d])[k]? = some c :=
    fun hc => (List.getElem?_append_left (List.getElem?_eq_some_iff.mp hc).1).trans hc
  refine ⟨?_, fun k c hc => ?_, fun id k hk => ?_, fun id u hu => ?_⟩
  · show (s.plane.nextID + 1).toNat ≡ (s.calls ++ [_]).length [MOD 2 ^ 32 - 1]
    rw [List.length_append, List.length_singleton, (toNat_add_one hzero).1]
    exact h.counter.add_right 1
  · rcases of_getElem?_concat hc with hc | ⟨rfl, rfl⟩
    · exact h.ids k c hc
    · exact ⟨h.next hzero, huri⟩
  · obtain ⟨c, hc, hid⟩ := h.rows id k hk
    exact ⟨c, hold hc, hid⟩
  · obtain ⟨k, c, hk, hc, hown⟩ := h.owners id u hu
    exact ⟨k, c, hk, hold hc, hown⟩

/-- The insertion is the call's own. -/
theorem Numbered.insert (h : s.Numbered) {k : ℕ} {c : AllocCall} (hc : s.calls[k]? = some c)
    (now : Time) :
    { s with
      plane := s.plane.insertEntry c.id c.uri now
      calls := s.calls.set k { c with inserted := true }
      row := s.row.set c.id k }.Numbered := by
  have hself : (s.calls.set k { c with inserted := true })[k]?
      = some { c with inserted := true } := by
    rw [List.getElem?_set_self (List.getElem?_eq_some_iff.mp hc).1]
  refine ⟨?_, fun j d hd => ?_, fun id j hj => ?_, fun id u hu => ?_⟩
  · show s.plane.nextID.toNat ≡ (s.calls.set k _).length [MOD 2 ^ 32 - 1]
    rw [List.length_set]
    exact h.counter
  · by_cases hjk : k = j
    · subst hjk
      cases hself.symm.trans hd
      exact h.ids k c hc
    · exact h.ids j d ((List.getElem?_set_ne hjk).symm.trans hd)
  · have hj : (s.row.set c.id k).get id = some j := hj
    show ∃ d, (s.calls.set k _)[j]? = some d ∧ _
    rw [GoMap.get_set] at hj
    by_cases hjk : k = j
    · subst hjk
      refine ⟨_, hself, ?_, rfl⟩
      split_ifs at hj with hid
      · exact hid.symm
      · obtain ⟨d, hd, rfl, -⟩ := h.rows id k hj
        cases hc.symm.trans hd
        rfl
    · split_ifs at hj with hid
      · exact absurd (Option.some.inj hj) hjk
      · rw [List.getElem?_set_ne hjk]
        exact h.rows id j hj
  · have hu : (s.plane.insertEntry c.id c.uri now).ownerOf id = some u := hu
    show ∃ j d, (s.row.set c.id k).get id = some j ∧ (s.calls.set k _)[j]? = some d ∧ _
    rw [Plane.insertEntry_ownerOf] at hu
    rw [GoMap.get_set]
    split_ifs at hu ⊢ with hid
    · cases hu
      exact ⟨k, _, rfl, hself, rfl⟩
    · obtain ⟨j, d, hj, hd, hown⟩ := h.owners id u hu
      by_cases hjk : k = j
      · subst hjk
        cases hc.symm.trans hd
        exact ⟨k, _, hj, hself, hown⟩
      · exact ⟨j, d, hj, (List.getElem?_set_ne hjk).trans hd, hown⟩

theorem Numbered.step (h : s.Numbered) (hstep : s.Steps e s') : s'.Numbered := by
  cases hstep with
  | skip uri hzero =>
    refine ⟨?_, h.ids, h.rows, h.owners⟩
    -- the counter steps over 0, which is a multiple of the period away
    have hlast : s.plane.nextID.toNat = 2 ^ 32 - 1 := by
      have hsum : (s.plane.nextID.toNat + 1) % 2 ^ 32 = 0 := congrArg UInt32.toNat hzero
      have hlt := s.plane.nextID.toNat_lt
      omega
    show (s.plane.nextID + 1).toNat ≡ s.calls.length [MOD 2 ^ 32 - 1]
    rw [hzero]
    refine Nat.ModEq.trans ?_ h.counter
    rw [hlast]
    rfl
  | draw uri huri hzero => exact h.draw huri hzero
  | insert k now c hc hnew => exact h.insert hc now
  | forget k c hc hin =>
    have hop : PlaneState.step ⟨s.plane, s.clock⟩ (.forget c.id)
      = some ⟨s.plane.forget c.id, s.clock⟩ := rfl
    exact h.of_shrinks (PlaneState.nextID_of_step rfl hop)
      (fun _ _ hu => PlaneState.ownerOf_of_step rfl hop hu)
  | op e t hna hop =>
    exact h.of_shrinks (PlaneState.nextID_of_step hna hop)
      (fun _ _ hu => PlaneState.ownerOf_of_step hna hop hu)

/-! ## Whose entry it is -/

/-- The entry of call `j` is live. -/
def Live (s : WrapState) (j : ℕ) : Prop :=
  ∃ c, s.calls[j]? = some c ∧ s.row.get c.id = some j ∧ s.plane.byAlloc.get c.id ≠ none

/-- The entry under `id` is that of a call for `uri`. -/
def HeldFor (s : WrapState) (id : UInt32) (uri : GoString) : Prop :=
  ∃ k c, s.row.get id = some k ∧ s.calls[k]? = some c ∧ c.uri = uri

/-- **The condition.** A call inserts, and the holder of a call forgets, while no
other allocation is live whose call is a multiple of `2 ^ 32 - 1` away. -/
def Clear (s : WrapState) : WrapEvent → Prop
  | .insert k _ => ∀ j, j ≠ k → j ≡ k [MOD 2 ^ 32 - 1] → ¬ s.Live j
  | .forget k => ∀ j, j ≠ k → j ≡ k [MOD 2 ^ 32 - 1] → ¬ s.Live j
  | _ => True

/-- Every live entry is that of a call. -/
theorem Numbered.live (h : s.Numbered) {id : UInt32} (hid : s.plane.byAlloc.get id ≠ none) :
    ∃ j c, s.calls[j]? = some c ∧ c.id = id ∧ c.inserted = true ∧ s.row.get id = some j
      ∧ s.Live j := by
  obtain ⟨u, hu⟩ := Option.ne_none_iff_exists'.mp (fun hn => hid (Plane.ownerOf_eq_none.mp hn))
  obtain ⟨j, -, hj, -⟩ := h.owners id u hu
  obtain ⟨c, hc, rfl, hin⟩ := h.rows id j hj
  exact ⟨j, c, hc, rfl, hin, hj, c, hc, hj, hid⟩

/-- An id is free for its call when no call a multiple of the period away is live. -/
theorem Numbered.free_iff (h : s.Numbered) {k : ℕ} {c : AllocCall} (hc : s.calls[k]? = some c)
    (hnew : c.inserted = false) :
    s.plane.byAlloc.get c.id = none ↔ ∀ j, j ≠ k → j ≡ k [MOD 2 ^ 32 - 1] → ¬ s.Live j := by
  constructor
  · rintro hfree j - hmod ⟨d, hd, -, hlive⟩
    rw [(h.id_eq_iff hc hd).mpr hmod] at hlive
    exact hlive hfree
  · intro hclear
    by_contra hlive
    obtain ⟨j, d, hd, hid, hin, -, hj⟩ := h.live hlive
    refine hclear j ?_ ((h.id_eq_iff hc hd).mp hid) hj
    rintro rfl
    cases hc.symm.trans hd
    cases hnew.symm.trans hin

/-- The entry under the id of a call is its own when no call a multiple of the
period away is live. -/
theorem Numbered.own_iff (h : s.Numbered) {k : ℕ} {c : AllocCall} (hc : s.calls[k]? = some c) :
    (s.plane.byAlloc.get c.id ≠ none → s.row.get c.id = some k)
      ↔ ∀ j, j ≠ k → j ≡ k [MOD 2 ^ 32 - 1] → ¬ s.Live j := by
  constructor
  · rintro hown j hne hmod ⟨d, hd, hj, hlive⟩
    rw [(h.id_eq_iff hc hd).mpr hmod] at hj hlive
    exact hne (Option.some.inj (hj.symm.trans (hown hlive)))
  · intro hclear hlive
    obtain ⟨j, d, hd, hid, -, hrow, hj⟩ := h.live hlive
    by_cases hne : j = k
    · rw [hrow, hne]
    · exact absurd hj (hclear j hne ((h.id_eq_iff hc hd).mp hid))

end WrapState

/-- The step takes `id` out of `byAlloc`. -/
def WrapTransition.Releases (t : Transition WrapState WrapEvent) (id : UInt32) : Prop :=
  t.pre.plane.byAlloc.get id ≠ none ∧ t.post.plane.byAlloc.get id = none

/-- **The ids of live allocations are kept apart by a step.** The id a call
inserts is not `0` and not live, and afterwards the owner index has it for the
call's owner alone, while no address and no pending row points at it. A `Forget`
by the holder of a call releases that call's entry or none, and a `ForgetAgent`
releases entries of calls for that agent. -/
def AllocSound (t : Transition WrapState WrapEvent) : Prop :=
  match t.ev with
  | .insert k _ => ∀ c, t.pre.calls[k]? = some c →
      c.id ≠ 0 ∧ t.pre.plane.byAlloc.get c.id = none
        ∧ (∀ u, Plane.Owned t.post.plane.byURI u c.id ↔ u = c.uri)
        ∧ (∀ a, t.post.plane.src2id.get a ≠ some c.id)
        ∧ t.post.plane.pending.get c.id = none
  | .forget k => ∀ id, WrapTransition.Releases t id → t.pre.row.get id = some k
  | .op (.forgetAgent uri _) => ∀ id, WrapTransition.Releases t id → t.pre.HeldFor id uri
  | _ => True

namespace WrapState

variable {s s' : WrapState} {e : WrapEvent}

/-- What holds of every state of a run that meets the condition. -/
structure Apart (s : WrapState) : Prop where
  numbered : s.Numbered
  tables : s.plane.TableInv
  srcs : s.plane.SrcInv

theorem Numbered.id_ne_zero (h : s.Numbered) {k : ℕ} {c : AllocCall}
    (hc : s.calls[k]? = some c) : c.id ≠ 0 := by
  intro hzero
  have hid := (h.ids k c hc).1
  rw [hzero] at hid
  exact absurd hid (by simp)

/-- An insertion is sound exactly when it is clear. -/
theorem Apart.insert_iff (h : s.Apart) {k : ℕ} {now : Time} {c : AllocCall}
    (hc : s.calls[k]? = some c) (hnew : c.inserted = false)
    (hplane : s'.plane = s.plane.insertEntry c.id c.uri now) :
    AllocSound ⟨s, .insert k now, s'⟩ ↔ s.Clear (.insert k now) := by
  refine Iff.trans ⟨fun hsound => (hsound c hc).2.1, fun hfree d hd => ?_⟩
    (h.numbered.free_iff hc hnew)
  cases hc.symm.trans hd
  have hnone := Plane.ownerOf_eq_none.mpr hfree
  refine ⟨h.numbered.id_ne_zero hc, hfree, fun u => ?_, fun a ha => ?_, ?_⟩
  · show Plane.Owned s'.plane.byURI u c.id ↔ u = c.uri
    rw [hplane]
    refine (Plane.owned_insert s.plane.byURI c.uri u c.id c.id).trans ?_
    rw [h.tables.owned_iff, hnone]
    simp
  · have ha : s'.plane.src2id.get a = some c.id := ha
    rw [hplane] at ha
    have hlook := (h.tables.src2id a c.id ha).1
    rw [Plane.lookup, hfree] at hlook
    cases hlook
  · show s'.plane.pending.get c.id = none
    rw [hplane]
    refine Option.eq_none_iff_forall_ne_some.mpr fun pend hpend => ?_
    cases hnone.symm.trans (h.tables.pending c.id pend hpend)

/-- A `Forget` is sound exactly when it is clear. -/
theorem Apart.forget_iff (h : s.Apart) {k : ℕ} {c : AllocCall} (hc : s.calls[k]? = some c)
    (hplane : s'.plane = s.plane.forget c.id) :
    AllocSound ⟨s, .forget k, s'⟩ ↔ s.Clear (.forget k) := by
  have hget : ∀ id, s'.plane.byAlloc.get id = if id = c.id then none
      else s.plane.byAlloc.get id := fun id => by
    rw [hplane]
    exact Plane.forget_byAlloc s.plane c.id id
  refine Iff.trans ⟨fun hsound hlive => ?_, fun hown id hrel => ?_⟩ (h.numbered.own_iff hc)
  · refine hsound c.id ⟨hlive, ?_⟩
    show s'.plane.byAlloc.get c.id = none
    rw [hget, if_pos rfl]
  · obtain ⟨hlive, hgone⟩ := hrel
    have hgone : s'.plane.byAlloc.get id = none := hgone
    rw [hget] at hgone
    split_ifs at hgone with hid
    · subst hid
      exact hown hlive
    · exact absurd hgone hlive

/-- A `ForgetAgent` releases what calls for that agent have inserted. -/
theorem Apart.forgetAgent_sound (h : s.Apart) {uri : GoString} {order : List UInt32}
    (ho : s.plane.SetOrder uri order)
    (hplane : s'.plane = (s.plane.forgetAgent uri order).fst) :
    AllocSound ⟨s, .op (.forgetAgent uri order), s'⟩ := by
  rintro id ⟨hlive, hgone⟩
  have hgone : s'.plane.byAlloc.get id = none := hgone
  have hnil : ∀ k, s.plane.ownerOf k ≠ some [] := by
    intro k hk
    obtain ⟨j, c, -, hc, hnil⟩ := h.numbered.owners k [] hk
    exact (h.numbered.ids j c hc).2 hnil
  refine h.numbered.owners id uri ?_
  by_contra hother
  rw [hplane, (h.tables.forgetAgent_exact hnil ho).kept id hother] at hgone
  exact hlive hgone

theorem Apart.step (h : s.Apart) (hclear : s.Clear e) (hstep : s.Steps e s') : s'.Apart := by
  have hnum := h.numbered.step hstep
  cases hstep with
  | skip uri hzero => exact ⟨hnum, h.tables.setNextID _, h.srcs.1, h.srcs.2⟩
  | draw uri huri hzero => exact ⟨hnum, h.tables.setNextID _, h.srcs.1, h.srcs.2⟩
  | insert k now c hc hnew =>
    have hfree := (h.numbered.free_iff hc hnew).mpr hclear
    exact ⟨hnum, h.tables.insertEntry (h.numbered.id_ne_zero hc) hfree c.uri now,
      h.srcs.1, h.srcs.2⟩
  | forget k c hc hin =>
    have hop : PlaneState.step ⟨s.plane, s.clock⟩ (.forget c.id)
      = some ⟨s.plane.forget c.id, s.clock⟩ := rfl
    exact ⟨hnum, PlaneState.tableInv_step h.tables h.srcs rfl hop,
      PlaneState.srcInv_step h.srcs hop⟩
  | op e t hna hop =>
    exact ⟨hnum, PlaneState.tableInv_step h.tables h.srcs hna hop,
      PlaneState.srcInv_step h.srcs hop⟩

/-- A step is sound exactly when it is clear. -/
theorem Apart.sound_iff (h : s.Apart) (hstep : s.Steps e s') :
    AllocSound ⟨s, e, s'⟩ ↔ s.Clear e := by
  cases hstep with
  | skip uri hzero => exact Iff.rfl
  | draw uri huri hzero => exact Iff.rfl
  | insert k now c hc hnew => exact h.insert_iff hc hnew rfl
  | forget k c hc hin => exact h.forget_iff hc rfl
  | op e t hna hop =>
    refine iff_of_true ?_ trivial
    cases e with
    | forgetAgent uri order =>
      simp only [PlaneState.step] at hop
      split_ifs at hop with ho
      cases hop
      exact h.forgetAgent_sound ho rfl
    | _ => trivial

end WrapState

/-! ## Over whole runs -/

section Runs

variable {idleTTL pendingTTL start : Time} {h : List (Transition WrapState WrapEvent)}
  {s s' : WrapState} {e : WrapEvent}

theorem WrapState.length_le_of_steps (hstep : s.Steps e s') :
    s.calls.length ≤ s'.calls.length := by
  cases hstep with
  | draw uri huri hzero =>
    show s.calls.length ≤ (s.calls ++ [_]).length
    rw [List.length_append]
    exact Nat.le_add_right _ _
  | insert k now c hc hnew => exact (List.length_set ..).ge
  | _ => exact le_rfl

/-- Two calls among the first `2 ^ 32 - 1` never share an id. -/
theorem WrapState.clear_of_few (hlen : s.calls.length ≤ 2 ^ 32 - 1) (hstep : s.Steps e s') :
    s.Clear e := by
  have hapart : ∀ {k c}, s.calls[k]? = some c →
      ∀ j, j ≠ k → j ≡ k [MOD 2 ^ 32 - 1] → ¬ s.Live j := by
    rintro k c hc j hne hmod ⟨d, hd, -, -⟩
    have hk := (List.getElem?_eq_some_iff.mp hc).1
    have hj := (List.getElem?_eq_some_iff.mp hd).1
    exact hne (hmod.eq_of_lt_of_lt (hj.trans_le hlen) (hk.trans_le hlen))
  cases hstep with
  | insert k now c hc hnew => exact hapart hc
  | forget k c hc hin => exact hapart hc
  | _ => trivial

/-- **Before the counter goes round, a run is clear.** -/
theorem clear_of_exec (hx : (wrapMachine idleTTL pendingTTL start).Exec h s)
    (hlen : s.calls.length ≤ 2 ^ 32 - 1) : ∀ t ∈ h, t.pre.Clear t.ev := by
  induction hx with
  | nil => exact fun t ht => absurd ht List.not_mem_nil
  | @snoc h s s' e hx hstep ih =>
    have hsteps := WrapState.steps_of_step hstep
    have hlen := (WrapState.length_le_of_steps hsteps).trans hlen
    intro t ht
    rcases List.mem_append.mp ht with ht | ht
    · exact ih hlen t ht
    · cases List.mem_singleton.mp ht
      exact WrapState.clear_of_few hlen hsteps

end Runs

/-- **A run keeps the ids of its live allocations apart exactly when it is clear**:
no call inserts, and no holder forgets, while an allocation is live whose call is
a nonzero multiple of `2 ^ 32 - 1` away. -/
theorem allocSound_iff {idleTTL pendingTTL start : Time}
    {h : List (Transition WrapState WrapEvent)} {s : WrapState}
    (hx : (wrapMachine idleTTL pendingTTL start).Exec h s) :
    (∀ t ∈ h, AllocSound t) ↔ ∀ t ∈ h, t.pre.Clear t.ev := by
  refine hx.forall_iff (I := WrapState.Apart) ?_ ?_ ?_
  · exact ⟨⟨rfl, nofun, nofun, nofun⟩, Plane.tableInv_newPlane _ _, nofun, nofun⟩
  · intro s e s' _ hI hclear hstep
    have hsteps := WrapState.steps_of_step hstep
    exact ⟨hI.step hclear hsteps, (hI.sound_iff hsteps).mpr hclear⟩
  · intro s e s' _ hI hclear hstep hsound
    exact hclear ((hI.sound_iff (WrapState.steps_of_step hstep)).mp hsound)

section Round

variable {idleTTL pendingTTL start : Time} {s : WrapState} {uri : GoString}

/-- An allocation that comes and goes moves the counter, and nothing else. -/
theorem WrapState.round_trip (hs : (wrapMachine idleTTL pendingTTL start).Reachable s)
    (huri : uri ≠ []) (hzero : s.plane.nextID + 1 ≠ 0) :
    ∃ s', (wrapMachine idleTTL pendingTTL start).Reachable s'
      ∧ s'.calls.length = s.calls.length + 1 ∧ s'.plane.nextID = s.plane.nextID + 1
      ∧ ∀ k, k ≠ s.plane.nextID + 1 → s'.plane.ownerOf k = s.plane.ownerOf k := by
  let c : AllocCall := ⟨uri, s.plane.nextID + 1, false⟩
  let s₁ : WrapState := { s with plane := s.plane.add, calls := s.calls ++ [c] }
  let s₂ : WrapState := { s₁ with
    plane := s₁.plane.insertEntry c.id uri 0
    calls := s₁.calls.set s.calls.length { c with inserted := true }
    row := s.row.set c.id s.calls.length }
  let s₃ : WrapState := { s₂ with plane := s₂.plane.forget c.id }
  have hc₁ : s₁.calls[s.calls.length]? = some c := List.getElem?_concat_length
  have hc₂ : s₂.calls[s.calls.length]? = some { c with inserted := true } := by
    rw [List.getElem?_set_self (List.getElem?_eq_some_iff.mp hc₁).1]
  have h₁ : (wrapMachine idleTTL pendingTTL start).step s (.add uri) = some s₁ := by
    simp only [wrapMachine, step, huri, hzero, if_false]
    rfl
  have h₂ : (wrapMachine idleTTL pendingTTL start).step s₁ (.insert s.calls.length 0)
      = some s₂ := by
    simp only [wrapMachine, step, hc₁]
    rfl
  have h₃ : (wrapMachine idleTTL pendingTTL start).step s₂ (.forget s.calls.length)
      = some s₃ := by
    simp only [wrapMachine, step, hc₂]
    rfl
  refine ⟨s₃, ((hs.step h₁).step h₂).step h₃, ?_, ?_, fun k hk => ?_⟩
  · show (s₁.calls.set _ _).length = _
    rw [List.length_set, List.length_append, List.length_singleton]
  · exact PlaneState.nextID_of_step (s := ⟨s₂.plane, s₂.clock⟩) (e := .forget c.id) rfl rfl
  · have hforget : s₃.plane.ownerOf k = s₂.plane.ownerOf k := by
      unfold Plane.ownerOf
      rw [Plane.forget_byAlloc, if_neg hk]
    rw [hforget, Plane.insertEntry_ownerOf, if_neg hk]
    rfl

/-- An agent keeps id 1 while another one allocates and forgets, `n` times. -/
theorem WrapState.exists_rounds (idleTTL pendingTTL start : Time) (n : ℕ) (hn : n + 1 < 2 ^ 32) :
    ∃ s, (wrapMachine idleTTL pendingTTL start).Reachable s ∧ s.calls.length = n + 1
      ∧ s.plane.nextID.toNat = n + 1 ∧ s.plane.ownerOf 1 = some (go "a") := by
  induction n with
  | zero =>
    obtain ⟨s, hrun, hlen, hnext, hown⟩ : ∃ s, (wrapMachine idleTTL pendingTTL start).run
        [.add (go "a"), .insert 0 0] (wrapMachine idleTTL pendingTTL start).init = some s
        ∧ s.calls.length = 1 ∧ s.plane.nextID.toNat = 1 ∧ s.plane.ownerOf 1 = some (go "a") :=
      ⟨_, rfl, rfl, rfl, rfl⟩
    obtain ⟨h, hx, -⟩ := Machine.exec_of_run _ _ hrun
    exact ⟨s, ⟨h, hx⟩, hlen, hnext, hown⟩
  | succ n ih =>
    obtain ⟨s, hs, hlen, hnext, hown⟩ := ih (by omega)
    have hsum : (s.plane.nextID + 1).toNat = n + 2 := by
      rw [UInt32.toNat_add, hnext]
      exact Nat.mod_eq_of_lt hn
    have hne : ∀ k : UInt32, k.toNat < 2 → k ≠ s.plane.nextID + 1 := by
      rintro k hk rfl
      omega
    obtain ⟨s', hs', hlen', hnext', hown'⟩ :=
      WrapState.round_trip hs (show go "b" ≠ [] by decide) (hne 0 (by decide)).symm
    refine ⟨s', hs', by rw [hlen', hlen], by rw [hnext', hsum], ?_⟩
    rw [hown' 1 (hne 1 (by decide)), hown]

end Round

/-- **The counter comes back to a live id.** An agent keeps id 1 while another one
goes through the other ids; the next call returns 1 again, and its insertion takes
the entry over. -/
theorem live_id_taken_over :
    ∃ s k s', (wrapMachine 60 30 0).Reachable s
      ∧ (wrapMachine 60 30 0).step s (.insert k 0) = some s'
      ∧ s.plane.ownerOf 1 = some (go "a") ∧ s'.plane.ownerOf 1 = some (go "b")
      ∧ ¬ AllocSound ⟨s, .insert k 0, s'⟩ := by
  obtain ⟨s, hs, hlen, hnext, hown⟩ := WrapState.exists_rounds 60 30 0 (2 ^ 32 - 2) (by norm_num)
  have hzero : s.plane.nextID + 1 = 0 := by
    rw [← UInt32.toNat_inj, UInt32.toNat_add, hnext]
    rfl
  let s₁ : WrapState := { s with plane := s.plane.add }
  let c : AllocCall := ⟨go "b", 1, false⟩
  let s₂ : WrapState := { s₁ with plane := s₁.plane.add, calls := s₁.calls ++ [c] }
  have hc : s₂.calls[s.calls.length]? = some c := List.getElem?_concat_length
  have h₁ : (wrapMachine 60 30 0).step s (.add (go "b")) = some s₁ := by
    simp only [wrapMachine, WrapState.step, hzero, if_true]
    rfl
  have h₂ : (wrapMachine 60 30 0).step s₁ (.add (go "b")) = some s₂ := by
    have hnext₁ : s₁.plane.nextID = 0 := hzero
    simp only [wrapMachine, WrapState.step, hnext₁]
    rfl
  have h₃ : ∃ s₃, (wrapMachine 60 30 0).step s₂ (.insert s.calls.length 0) = some s₃
      ∧ s₃.plane = s₂.plane.insertEntry 1 (go "b") 0 := by
    simp only [wrapMachine, WrapState.step, hc]
    exact ⟨_, rfl, rfl⟩
  obtain ⟨s₃, h₃, hplane⟩ := h₃
  refine ⟨s₂, s.calls.length, s₃, (hs.step h₁).step h₂, h₃, hown, ?_, fun hsound => ?_⟩
  · rw [hplane, Plane.insertEntry_ownerOf, if_pos rfl]
  · have hfree : s.plane.byAlloc.get 1 = none := (hsound c hc).2.1
    cases (Plane.ownerOf_eq_none.mpr hfree).symm.trans hown

/-- Two allocations and a `Forget`, well before the counter goes round. -/
theorem first_ids_apart :
    ∃ h s, (wrapMachine 60 30 0).Exec h s
      ∧ h.map Transition.ev
        = [.add (go "a"), .add (go "b"), .insert 1 0, .insert 0 0, .forget 0]
      ∧ ∀ t ∈ h, AllocSound t := by
  obtain ⟨s, hrun, hlen⟩ : ∃ s, (wrapMachine 60 30 0).run
      [.add (go "a"), .add (go "b"), .insert 1 0, .insert 0 0, .forget 0]
      (wrapMachine 60 30 0).init = some s ∧ s.calls.length = 2 := ⟨_, rfl, rfl⟩
  obtain ⟨h, hx, hev⟩ := Machine.exec_of_run _ _ hrun
  exact ⟨h, s, hx, hev, (allocSound_iff hx).mpr (clear_of_exec hx (by rw [hlen]; norm_num))⟩
