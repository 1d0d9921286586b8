import OutRelay.PlaneBinding

/-!
# The keep-alive index of an allocation

A data packet proves its sender alive: the plane finds the sender's
allocation through `src2id` and marks it seen, which is what keeps the
collector away. The index holds one allocation per address, but two
allocations can be bound to one address – an agent that resumes a forwarded
stream re-uses its port while the old allocation has not been collected – and
every operation that takes an allocation off its address deletes the index
*by address*, without asking whose entry it is.

So an operation on one allocation can take the keep-alive index of another
with it. `src2id_step_iff` says exactly when it does not: when no allocation
the operation releases or moves is bound to the same address. Under that
condition an allocation whose agent keeps sending is never collected
(`warm_of_sending`).
-/

namespace Plane

variable {p : Plane} {a : AddrPort} {now : Time}

/-! ## The index after each operation -/

theorem forget_src2id (p : Plane) (id : UInt32) (a : AddrPort) :
    (p.forget id).src2id.get a
      = if p.lookup id = some a then none else p.src2id.get a := by
  unfold forget lookup
  cases he : p.byAlloc.get id with
  | none => rfl
  | some entry =>
    refine (GoMap.get_del p.src2id entry.src a).trans (if_congr ?_ rfl rfl)
    simp [eq_comm]

/-- The loop of `ForgetAgent` drops the addresses of the ids it visits. -/
theorem foldl_forgetAgentRound_src2id (order : List UInt32) (hnd : order.Nodup)
    (acc : Plane × ℕ) (a : AddrPort) :
    (order.foldl forgetAgentRound acc).fst.src2id.get a
      = if ∃ i ∈ order, acc.fst.lookup i = some a then none
        else acc.fst.src2id.get a := by
  induction order generalizing acc with
  | nil => simp
  | cons id order ih =>
    obtain ⟨hnotin, hnd⟩ := List.nodup_cons.mp hnd
    have hround : (forgetAgentRound acc id).fst.src2id.get a
        = if acc.fst.lookup id = some a then none else acc.fst.src2id.get a := by
      unfold forgetAgentRound lookup
      cases he : acc.fst.byAlloc.get id with
      | none => rfl
      | some entry =>
        refine (GoMap.get_del _ entry.src a).trans (if_congr ?_ rfl rfl)
        simp [eq_comm]
    have hrest : (∃ i ∈ order, (forgetAgentRound acc id).fst.lookup i = some a)
        ↔ ∃ i ∈ order, acc.fst.lookup i = some a := by
      refine exists_congr (fun i => and_congr_right (fun hi => ?_))
      unfold lookup
      rw [forgetAgentRound_byAlloc, if_neg (fun h : i = id => hnotin (h ▸ hi))]
    rw [List.foldl_cons, ih hnd, hround]
    simp only [hrest, List.exists_mem_cons_iff]
    by_cases h₁ : acc.fst.lookup id = some a
    · rw [if_pos h₁, ite_self, if_pos (Or.inl h₁)]
    · simp only [h₁, if_false, false_or]

theorem forgetAgent_src2id {uri : GoString} {order : List UInt32}
    (ho : p.SetOrder uri order) (a : AddrPort) :
    (p.forgetAgent uri order).fst.src2id.get a
      = if uri ≠ [] ∧ ∃ i ∈ order, p.lookup i = some a then none
        else p.src2id.get a := by
  unfold forgetAgent
  by_cases huri : uri = []
  · rw [if_pos huri, if_neg (fun h => h.1 huri)]
  rw [if_neg huri]
  cases hset : p.byURI.get uri with
  | none =>
    have hnil : order = [] := by
      rw [← List.toFinset_eq_empty_iff, ho.2, hset]
      rfl
    simp [hnil]
  | some set =>
    refine (foldl_forgetAgentRound_src2id order ho.1 (p, 0) a).trans ?_
    simp [huri]

theorem gcOnce_src2id (p : Plane) (now : Time) (allocs : List (UInt32 × AllocEntry))
    (pends : List (UInt32 × PendingEntry)) (punches : List (UInt32 × QueuedPunch))
    (a : AddrPort) :
    (p.gcOnce now allocs pends punches).src2id.get a
      = if ∃ e ∈ allocs, e.snd.lastSeen < now - p.idleTTL ∧ e.snd.src = a then none
        else p.src2id.get a := by
  have hround : ∀ (q : Plane) (e : UInt32 × AllocEntry),
      (evictRound (now - p.idleTTL) q e).src2id.get a
        = if e.snd.lastSeen < now - p.idleTTL ∧ e.snd.src = a then none
          else q.src2id.get a := by
    intro q e
    unfold evictRound
    by_cases hidle : e.snd.lastSeen < now - p.idleTTL
    · rw [if_pos hidle]
      refine (GoMap.get_del q.src2id e.snd.src a).trans (if_congr ?_ rfl rfl)
      simp [hidle, eq_comm]
    · rw [if_neg hidle, if_neg (fun h => hidle h.1)]
  exact GoMap.foldl_clears (fun q : Plane => q.src2id.get a) hround allocs p

/-! ## Which operations take an allocation off its address -/

/-- **The operation releases allocation `i`, or binds it.** -/
def Leaves (p : Plane) (i : UInt32) (e : PlaneEvent) : Prop :=
  p.Releases i e ∨ ∃ src, p.BindsTo i src e

/-- **No allocation the operation releases or binds was bound to `a`.** -/
def SparesAddr (p : Plane) (a : AddrPort) (e : PlaneEvent) : Prop :=
  ∀ i, p.Leaves i e → p.lookup i ≠ some a

/-- The operation binds nothing to `a`. -/
def BindsElsewhere (p : Plane) (a : AddrPort) (e : PlaneEvent) : Prop :=
  ∀ i, ¬ p.BindsTo i a e

theorem sparesAddr_of_not_leaves {e : PlaneEvent} (h : ∀ i, ¬ p.Leaves i e) :
    p.SparesAddr a e := fun i hi => absurd hi (h i)

/-- An operation that takes one allocation off its address spares the others. -/
theorem sparesAddr_iff_of_unique {id : UInt32} {entry : AllocEntry} {e : PlaneEvent}
    (he : p.byAlloc.get id = some entry) (hl : p.Leaves id e)
    (hu : ∀ i, p.Leaves i e → i = id) : p.SparesAddr a e ↔ entry.src ≠ a := by
  constructor
  · rintro h rfl
    exact h id hl (lookup_of_get he)
  · intro h i hi hlook
    rw [hu i hi, lookup_of_get he] at hlook
    exact h (Option.some.inj hlook)

/-- Arming a nonce that does not drain leaves the index alone. -/
theorem armPending_src2id_of_not_drains {id : UInt32} {uri : GoString} {nonce : Nonce}
    (h : ∀ src, ¬ p.Drains id uri nonce now src) :
    (p.armPending id uri nonce now).fst.src2id = p.src2id := by
  rcases armPending_cases p id uri nonce now with
    ⟨-, heq⟩ | ⟨entry, he, hown, huri, -, heq | ⟨q, hq, hexp, hnonce, -⟩⟩
  · rw [heq]
  · rw [heq]
  · exact absurd ⟨huri, hown ▸ ownerOf_of_get he, q, hq, hexp, hnonce, rfl⟩ (h q.src)

/-- A punch that does not bind leaves the index alone. -/
theorem register_src2id_of_not_binds {id : UInt32} {nonce : Nonce} {now' : Time}
    (h : ¬ p.Binds id nonce now') (src : AddrPort) (now : Time) :
    (p.register id src nonce now now').src2id = p.src2id := by
  rcases register_cases p id src nonce now now' with
    ⟨-, heq⟩ | heq | heq | ⟨pend, entry, hp, hexp, hnonce, he, -⟩
  · rw [heq]
  · rw [heq]
  · rw [heq]
  · exact absurd ⟨⟨entry, he⟩, pend, hp, hexp, hnonce⟩ h

/-- **Binding `id` away from `a` keeps the index at `a` unless `id` was the one
bound there.** -/
theorem rebind_src2id_iff {id j : UInt32} {entry : AllocEntry} {src : AddrPort}
    (hv : a.IsValid) (hidx : p.src2id.get a = some j) (hsrc : src ≠ a) :
    (p.rebind id entry src now).src2id.get a = some j ↔ entry.src ≠ a := by
  by_cases hne : entry.src = src
  · rw [rebind_src2id_of_eq p id entry src now hne, hne]
    exact ⟨fun _ => hsrc, fun _ => hidx⟩
  · rw [rebind_src2id p id entry src now hne, if_neg hsrc.symm]
    by_cases ha : a = entry.src
    · rw [if_pos ⟨ha, ha ▸ hv⟩]
      simp [ha]
    · rw [if_neg (fun h => ha h.1), hidx]
      simp [Ne.symm ha]

theorem touch_src2id (p : Plane) (src : AddrPort) (now : Time) :
    (p.touch src now).src2id = p.src2id := by
  unfold touch
  split
  · rfl
  · split <;> rfl

end Plane

/-- A row that is deleted under a condition is kept when it fails. -/
theorem ite_none_eq_some_iff {α : Type} {c : Prop} [Decidable c] {o : Option α} {x : α}
    (h : o = some x) : (if c then none else o) = some x ↔ ¬ c := by
  split_ifs with hc
  · simp [hc]
  · simp [hc, h]

namespace Plane

variable {p : Plane} {a : AddrPort} {j : UInt32} {now : Time}

/-- An operation that takes no allocation off its address keeps the index. -/
theorem src2id_iff_of_not_leaves {q : Plane} {e : PlaneEvent} (hidx : p.src2id.get a = some j)
    (hl : ∀ i, ¬ p.Leaves i e) (hsrc : q.src2id = p.src2id) :
    q.src2id.get a = some j ↔ p.SparesAddr a e :=
  iff_of_true (hsrc ▸ hidx) (sparesAddr_of_not_leaves hl)

theorem armPending_src2id_iff {id : UInt32} {uri : GoString} {nonce : Nonce} (hv : a.IsValid)
    (hidx : p.src2id.get a = some j) (hb : p.BindsElsewhere a (.armPending id uri nonce now)) :
    (p.armPending id uri nonce now).fst.src2id.get a = some j
      ↔ p.SparesAddr a (.armPending id uri nonce now) := by
  by_cases hd : ∃ src, p.Drains id uri nonce now src
  · obtain ⟨src, hd⟩ := hd
    obtain ⟨entry, he, heq⟩ := hd.armPending_eq
    have hsrc : src ≠ a := fun h => hb id ⟨rfl, h ▸ hd⟩
    have hl : p.Leaves id (.armPending id uri nonce now) := Or.inr ⟨src, rfl, hd⟩
    rw [sparesAddr_iff_of_unique he hl (fun i hi => hi.elim False.elim (fun ⟨_, h⟩ => h.1.symm)),
      heq]
    exact rebind_src2id_iff (p := { p with queued := p.queued.del id }) hv hidx hsrc
  · refine src2id_iff_of_not_leaves hidx ?_ (armPending_src2id_of_not_drains (not_exists.mp hd))
    rintro i (hi | ⟨src, rfl, hi⟩)
    · exact hi
    · exact hd ⟨src, hi⟩

theorem register_src2id_iff {buf : List UInt8} {src : AddrPort} {now' : Time} {id : UInt32}
    {nonce : Nonce} (hdec : Packet.decode buf = .punch id nonce) (hv : a.IsValid)
    (hidx : p.src2id.get a = some j) (hb : p.BindsElsewhere a (.datagram buf src now now')) :
    (p.register id src nonce now now').src2id.get a = some j
      ↔ p.SparesAddr a (.datagram buf src now now') := by
  by_cases hbind : p.Binds id nonce now'
  · obtain ⟨entry, he, heq⟩ := hbind.register_eq src now
    have hsrc : src ≠ a := fun h => hb id ⟨h, nonce, hdec, hbind⟩
    have hl : p.Leaves id (.datagram buf src now now') := Or.inr ⟨src, rfl, nonce, hdec, hbind⟩
    rw [sparesAddr_iff_of_unique he hl (fun i hi => ?_), heq]
    · exact rebind_src2id_iff hv hidx hsrc
    · obtain hi | ⟨_, -, n, hn, -⟩ := hi
      · exact hi.elim
      · cases hdec.symm.trans hn
        rfl
  · refine src2id_iff_of_not_leaves hidx ?_ (register_src2id_of_not_binds hbind src now)
    rintro i (hi | ⟨_, -, n, hn, hi⟩)
    · exact hi
    · cases hdec.symm.trans hn
      exact hbind hi

theorem forget_src2id_iff {id : UInt32} (hidx : p.src2id.get a = some j) :
    (p.forget id).src2id.get a = some j ↔ p.SparesAddr a (.forget id) := by
  rw [forget_src2id p id a, ite_none_eq_some_iff hidx]
  constructor
  · rintro h i (rfl | ⟨_, hi⟩)
    · exact h
    · exact hi.elim
  · exact fun h => h id (Or.inl rfl)

theorem forgetAgent_src2id_iff {uri : GoString} {order : List UInt32} (ho : p.SetOrder uri order)
    (hidx : p.src2id.get a = some j) :
    (p.forgetAgent uri order).fst.src2id.get a = some j
      ↔ p.SparesAddr a (.forgetAgent uri order) := by
  rw [forgetAgent_src2id ho a, ite_none_eq_some_iff hidx]
  constructor
  · rintro h i (⟨huri, hi⟩ | ⟨_, hi⟩) hl
    · exact h ⟨huri, i, hi, hl⟩
    · exact hi.elim
  · rintro h ⟨huri, i, hi, hl⟩
    exact h i (Or.inl ⟨huri, hi⟩) hl

theorem gcOnce_src2id_iff {allocs : List (UInt32 × AllocEntry)}
    {pends : List (UInt32 × PendingEntry)} {punches : List (UInt32 × QueuedPunch)}
    (ho : p.byAlloc.RangeOrder allocs) (hidx : p.src2id.get a = some j) :
    (p.gcOnce now allocs pends punches).src2id.get a = some j
      ↔ p.SparesAddr a (.gcOnce now allocs pends punches) := by
  have hmem := ho.mem_iff
  rw [gcOnce_src2id p now allocs pends punches a, ite_none_eq_some_iff hidx]
  constructor
  · rintro h i (⟨entry, he, hidle⟩ | ⟨_, hi⟩) hl
    · rw [lookup_of_get he] at hl
      exact h ⟨(i, entry), (hmem i entry).mpr he, hidle, Option.some.inj hl⟩
    · exact hi.elim
  · rintro h ⟨⟨i, entry⟩, he, hidle, rfl⟩
    have he' := (hmem i entry).mp he
    exact h i (Or.inl ⟨entry, he', hidle⟩) (lookup_of_get he')

end Plane

namespace PlaneState

variable {s s' : PlaneState} {e : PlaneEvent} {a : AddrPort} {j : UInt32}

/-- **When an operation keeps the index of an address**: exactly when no
allocation it releases or binds was bound there. -/
theorem src2id_step_iff (hv : a.IsValid) (hidx : s.plane.src2id.get a = some j)
    (hstep : s.step e = some s') (hb : s.plane.BindsElsewhere a e) :
    s'.plane.src2id.get a = some j ↔ s.plane.SparesAddr a e := by
  cases e with
  | allocate uri now =>
    simp only [step] at hstep
    split_ifs at hstep
    obtain ⟨⟨q, id⟩, hq, rfl⟩ := Option.map_eq_some_iff.mp hstep
    refine Plane.src2id_iff_of_not_leaves hidx ?_ (Plane.allocate_byAlloc hq).2.2.2.2.1
    rintro i (hi | ⟨src, hi⟩) <;> exact hi
  | armPending id uri nonce now =>
    simp only [step] at hstep
    split_ifs at hstep
    cases hstep
    exact Plane.armPending_src2id_iff hv hidx hb
  | datagram buf src now now' =>
    simp only [step, Plane.recv] at hstep
    split_ifs at hstep
    cases hstep
    have hother : (∀ id nonce, Packet.decode buf ≠ .punch id nonce) →
        ∀ i, ¬ s.plane.Leaves i (.datagram buf src now now') := by
      rintro hdec i (hi | ⟨_, -, nonce, hi, -⟩)
      · exact hi
      · exact hdec i nonce hi
    cases hdec : Packet.decode buf with
    | punch id nonce => exact Plane.register_src2id_iff hdec hv hidx hb
    | data id payload =>
      exact Plane.src2id_iff_of_not_leaves hidx (hother (by simp [hdec]))
        (Plane.touch_src2id s.plane src now)
    | short => exact Plane.src2id_iff_of_not_leaves hidx (hother (by simp [hdec])) rfl
    | badRegistration => exact Plane.src2id_iff_of_not_leaves hidx (hother (by simp [hdec])) rfl
  | forget id =>
    cases hstep
    exact Plane.forget_src2id_iff hidx
  | forgetAgent uri order =>
    simp only [step] at hstep
    split_ifs at hstep with horder
    cases hstep
    exact Plane.forgetAgent_src2id_iff horder hidx
  | gcOnce now allocs pends punches =>
    simp only [step] at hstep
    split_ifs at hstep with hguard
    cases hstep
    exact Plane.gcOnce_src2id_iff hguard.2.1 hidx

end PlaneState

/-! ## An allocation whose agent keeps sending -/

namespace Plane

variable {p : Plane} {a : AddrPort} {j : UInt32}

/-- **The agent at `a` keeps allocation `j` alive**: `j` is live and is the one
the index finds for `a`. -/
def Warm (p : Plane) (a : AddrPort) (j : UInt32) : Prop :=
  p.src2id.get a = some j ∧ ∃ e, p.byAlloc.get j = some e

/-- A data packet from `a` then marks `j` seen. -/
theorem Warm.touch (h : p.Warm a j) (now : Time) :
    ∃ e, (p.touch a now).byAlloc.get j = some e ∧ e.lastSeen = now := by
  obtain ⟨hidx, e, he⟩ := h
  unfold Plane.touch
  rw [hidx]
  dsimp only
  rw [he]
  exact ⟨_, GoMap.get_set_self _ _ _, rfl⟩

/-- **The operation is on another allocation than `j`**, and does not bind it
to `a`: a release of another one, the teardown of another owner, a collection
that does not reach `j`, a handshake of another one. -/
def OnOther (p : Plane) (a : AddrPort) (j : UInt32) : PlaneEvent → Prop
  | .forget i => i ≠ j
  | .forgetAgent uri _ => p.ownerOf j ≠ some uri
  | .gcOnce now _ _ _ => ∃ e, p.byAlloc.get j = some e ∧ now - p.idleTTL ≤ e.lastSeen
  | .armPending i uri nonce now => i ≠ j ∧ ¬ p.Drains i uri nonce now a
  | .datagram buf src _ _ => ∃ i nonce, Packet.decode buf = .punch i nonce ∧ i ≠ j ∧ src ≠ a
  | .allocate _ _ => False

theorem OnOther.bindsElsewhere {e : PlaneEvent} (h : p.OnOther a j e) :
    p.BindsElsewhere a e := by
  intro i hb
  cases e with
  | armPending k uri nonce now =>
    obtain ⟨rfl, hd⟩ := hb
    exact h.2 hd
  | datagram buf src now now' =>
    obtain ⟨_, _, _, -, hsrc⟩ := h
    exact hsrc hb.1
  | _ => exact hb

/-- The operation is made on `j`: it re-issues its id, or releases or binds it.
A collection is made on no allocation in particular: whether it reaches `j` is a
matter of when `j` was last seen. -/
def MadeOn (p : Plane) (j : UInt32) : PlaneEvent → Prop
  | .allocate _ _ => nextAllocID p.nextID = j
  | .gcOnce _ _ _ _ => False
  | e => p.Leaves j e

/-- **Nothing the operation releases or binds is `j`, or was bound to `a`.** The
first part is the business of `Allocate`: it holds of an operation on another
allocation unless the counter has wrapped onto a live id. -/
def Spares (p : Plane) (a : AddrPort) (j : UInt32) (e : PlaneEvent) : Prop :=
  ∀ i, p.Leaves i e → i ≠ j ∧ p.lookup i ≠ some a

end Plane

namespace PlaneState

variable {s s' : PlaneState} {e : PlaneEvent} {a : AddrPort} {j : UInt32}

/-! ## Runs -/

/-- `j` has been seen recently enough for the operation, if it is a
collection. -/
def SeenFor (s : PlaneState) (j : UInt32) : PlaneEvent → Prop
  | .gcOnce now _ _ _ =>
    ∀ entry, s.plane.byAlloc.get j = some entry → now - s.plane.idleTTL ≤ entry.lastSeen
  | _ => True

/-- An operation that is not made on `j` does not release or bind it. -/
theorem not_leaves_of_not_madeOn (hop : ¬ s.plane.MadeOn j e) (hseen : s.SeenFor j e) :
    ¬ s.plane.Leaves j e := by
  cases e with
  | allocate uri now => rintro (h | ⟨_, h⟩) <;> exact h
  | gcOnce now allocs pends punches =>
    rintro (⟨entry, he, hidle⟩ | ⟨_, h⟩)
    · exact absurd hidle (not_lt.mpr (hseen entry he))
    · exact h
  | _ => exact hop

/-- **An operation that is not made on `j` keeps its entry**, up to the time it
was last seen, which does not go back. -/
theorem entry_step {entry : AllocEntry} (he : s.plane.byAlloc.get j = some entry)
    (hop : ¬ s.plane.MadeOn j e) (hseen : s.SeenFor j e) (hstep : s.step e = some s') :
    ∃ entry', s'.plane.byAlloc.get j = some entry'
      ∧ (entry'.lastSeen = entry.lastSeen ∨ s.clock ≤ entry'.lastSeen) := by
  have hl := not_leaves_of_not_madeOn hop hseen
  rcases entry_cases he (fun uri now heq => by subst heq; exact hop) hstep with
    ⟨entry', he', -, -, hlast⟩ | ⟨src, hb, -⟩ | ⟨-, hrel⟩
  · exact ⟨entry', he', hlast⟩
  · exact absurd (Or.inr ⟨src, hb⟩) hl
  · exact absurd (Or.inl hrel) hl

/-- An operation that is not made on `j`, binds nothing to `a`, and takes no
other allocation off `a`, keeps `j` warm. -/
theorem warm_step (hS : s.plane.SrcInv) (hwarm : s.plane.Warm a j)
    (hop : ¬ s.plane.MadeOn j e) (hb : s.plane.BindsElsewhere a e) (hseen : s.SeenFor j e)
    (hspare : ∀ i, i ≠ j → s.plane.Leaves i e → s.plane.lookup i ≠ some a)
    (hstep : s.step e = some s') : s'.plane.Warm a j := by
  obtain ⟨hidx, entry, he⟩ := hwarm
  refine ⟨?_, (entry_step he hop hseen hstep).imp (fun _ h => h.1)⟩
  rw [src2id_step_iff (hS.src2id a j hidx) hidx hstep hb]
  intro i hi
  refine hspare i ?_ hi
  rintro rfl
  exact not_leaves_of_not_madeOn hop hseen hi

/-- An operation on another allocation that leaves `j` live is not one that
releases or binds it. -/
theorem not_leaves_of_live (hoth : s.plane.OnOther a j e) (hstep : s.step e = some s')
    (hlive : ∃ entry, s'.plane.byAlloc.get j = some entry) : ¬ s.plane.Leaves j e := by
  rintro (hrel | ⟨src, hb⟩)
  · cases e with
    | forget id => exact hoth hrel
    | forgetAgent uri order =>
      simp only [step] at hstep
      split_ifs at hstep with ho
      cases hstep
      obtain ⟨entry, he⟩ := hlive
      rw [Plane.forgetAgent_byAlloc ho, if_pos (show uri ≠ [] ∧ j ∈ order from hrel)] at he
      cases he
    | gcOnce now allocs pends punches =>
      obtain ⟨entry, he, hidle⟩ := hrel
      obtain ⟨entry', he', hseen⟩ := hoth
      cases he.symm.trans he'
      exact absurd hidle (not_lt.mpr hseen)
    | _ => exact hrel
  · cases e with
    | armPending id uri nonce now => exact hoth.1 hb.1
    | datagram buf src' now now' =>
      obtain ⟨-, nonce, hdec, -⟩ := hb
      obtain ⟨i, nonce', hdec', hij, -⟩ := hoth
      rw [hdec] at hdec'
      cases hdec'
      exact hij rfl
    | _ => exact hb

/-- An operation on another allocation that does not release or bind `j` is not
made on it. -/
theorem not_madeOn_of_onOther (hoth : s.plane.OnOther a j e)
    (hkeep : ¬ s.plane.Leaves j e) : ¬ s.plane.MadeOn j e ∧ s.SeenFor j e := by
  cases e with
  | allocate uri now => exact absurd hoth id
  | gcOnce now allocs pends punches =>
    refine ⟨id, fun entry he => ?_⟩
    obtain ⟨entry', he', hseen⟩ := hoth
    cases he.symm.trans he'
    exact hseen
  | _ => exact ⟨hkeep, trivial⟩

/-- **When an operation on another allocation keeps `j` warm**: exactly when
nothing it releases or binds is `j` or was bound to the address of `j`. -/
theorem warm_step_iff (hS : s.plane.SrcInv) (hwarm : s.plane.Warm a j)
    (hoth : s.plane.OnOther a j e) (hstep : s.step e = some s') :
    s'.plane.Warm a j ↔ s.plane.Spares a j e := by
  constructor
  · intro hwarm' i hi
    have hidx := src2id_step_iff (hS.src2id a j hwarm.1) hwarm.1 hstep hoth.bindsElsewhere
    refine ⟨?_, hidx.mp hwarm'.1 i hi⟩
    rintro rfl
    exact not_leaves_of_live hoth hstep hwarm'.2 hi
  · intro hspares
    obtain ⟨hop, hseen⟩ := not_madeOn_of_onOther hoth (fun hj => (hspares j hj).1 rfl)
    exact warm_step hS hwarm hop hoth.bindsElsewhere hseen (fun i _ hi => (hspares i hi).2) hstep

end PlaneState

/-- The event is a data packet from `a`, received at `τ`. -/
def PlaneEvent.SentAt (a : AddrPort) (τ : Time) : PlaneEvent → Prop
  | .datagram buf src now _ =>
    src = a ∧ now = τ ∧ ∃ id payload, Packet.decode buf = .data id payload
  | _ => False

/-- **The agent at `a` keeps sending**: whenever the collector runs, it has sent
a data packet within the idle timeout. -/
def KeepsSending (a : AddrPort) (h : List (Transition PlaneState PlaneEvent)) : Prop :=
  ∀ h₁ t h₂, h = h₁ ++ t :: h₂ → ∀ now allocs pends punches,
    t.ev = .gcOnce now allocs pends punches →
      ∃ u ∈ h₁, ∃ τ, u.ev.SentAt a τ ∧ now - t.pre.plane.idleTTL ≤ τ

theorem KeepsSending.of_snoc {a : AddrPort} {h : List (Transition PlaneState PlaneEvent)}
    {t : Transition PlaneState PlaneEvent} (hk : KeepsSending a (h ++ [t])) :
    KeepsSending a h := by
  intro h₁ u h₂ heq
  refine hk h₁ u (h₂ ++ [t]) ?_
  rw [heq, List.append_assoc, List.cons_append]

/-- **An allocation whose agent keeps sending stays warm**, along every run
from a warm state in which no operation takes it or another allocation at its
address away. -/
theorem warm_of_sending {a : AddrPort} {j : UInt32} {s₀ s : PlaneState}
    {h : List (Transition PlaneState PlaneEvent)} (hS : s₀.plane.SrcInv)
    (hwarm : s₀.plane.Warm a j)
    (hx : (⟨s₀, PlaneState.step⟩ : Machine PlaneState PlaneEvent).Exec h s)
    (hop : ∀ t ∈ h, ¬ t.pre.plane.MadeOn j t.ev ∧ t.pre.plane.BindsElsewhere a t.ev
      ∧ ∀ i, i ≠ j → t.pre.plane.Leaves i t.ev → t.pre.plane.lookup i ≠ some a)
    (hsend : KeepsSending a h) :
    s.plane.Warm a j ∧ s.plane.SrcInv
      ∧ ∀ u ∈ h, ∀ τ, u.ev.SentAt a τ → τ ≤ s.clock
        ∧ ∀ entry, s.plane.byAlloc.get j = some entry → τ ≤ entry.lastSeen := by
  induction hx with
  | nil => exact ⟨hwarm, hS, fun u hu => absurd hu List.not_mem_nil⟩
  | @snoc h s s' e hx hstep ih =>
    obtain ⟨hwarm', hS', hsent⟩ :=
      ih (fun t ht => hop t (List.mem_append_left _ ht)) hsend.of_snoc
    obtain ⟨halone, hb, hspare⟩ := hop _ (List.mem_append_right _ (List.mem_singleton_self _))
    -- a data packet within the timeout has marked `j` seen, so the collector spares it
    have hseen : s.SeenFor j e := by
      cases e with
      | gcOnce now allocs pends punches =>
        intro entry he
        obtain ⟨u, hu, τ, hτ, hle⟩ := hsend h _ [] rfl now allocs pends punches rfl
        exact hle.trans ((hsent u hu τ hτ).2 entry he)
      | _ => trivial
    have hclock := PlaneState.clock_le_of_step hstep
    refine ⟨PlaneState.warm_step hS' hwarm' halone hb hseen hspare hstep,
      PlaneState.srcInv_step hS' hstep, fun u hu τ hτ => ?_⟩
    obtain ⟨hidx, entry, he⟩ := hwarm'
    obtain ⟨entry', he', hlast⟩ := PlaneState.entry_step he halone hseen hstep
    rcases List.mem_append.mp hu with hu | hu
    · obtain ⟨hτc, hτe⟩ := hsent u hu τ hτ
      refine ⟨hτc.trans hclock, fun e₁ he₁ => ?_⟩
      cases he'.symm.trans he₁
      rcases hlast with hlast | hlast
      · exact hlast ▸ hτe entry he
      · exact hτc.trans hlast
    · -- the packet just sent has marked `j` seen at `τ`
      cases List.mem_singleton.mp hu
      cases e with
      | datagram buf src now now' =>
        obtain ⟨rfl, rfl, id, payload, hdec⟩ := hτ
        have hnow : now ≤ s'.clock ∧ s'.plane = s.plane.touch src now := by
          simp only [PlaneState.step, Plane.recv, hdec] at hstep
          split_ifs at hstep with hguard
          cases hstep
          exact ⟨hguard.2.1, rfl⟩
        obtain ⟨e₂, he₂, hlast₂⟩ := Plane.Warm.touch ⟨hidx, entry, he⟩ now
        refine ⟨hnow.1, fun e₁ he₁ => ?_⟩
        rw [hnow.2, he₂] at he₁
        cases he₁
        exact le_of_eq hlast₂.symm
      | _ => exact absurd hτ id

/-- **When releasing one allocation keeps the keep-alive of another.** In every
reachable state and for every operation on another allocation than `j`, the
agent at `a` goes on keeping `j` alive exactly when the operation releases or
moves nothing that is bound to `a`; and along every run whose operations on
other allocations all do so, the data packets of the agent keep `j` from being
collected, and each of them marks it seen. -/
theorem keepAlive_iff_spares {idleTTL pendingTTL start : Time} {s : PlaneState}
    {a : AddrPort} {j : UInt32} (hr : (planeMachine idleTTL pendingTTL start).Reachable s)
    (hwarm : s.plane.Warm a j) :
    (∀ e s', s.step e = some s' → s.plane.OnOther a j e →
      (s'.plane.Warm a j ↔ s.plane.Spares a j e))
    ∧ ∀ h s', (⟨s, PlaneState.step⟩ : Machine PlaneState PlaneEvent).Exec h s' →
      (∀ t ∈ h, ¬ t.pre.plane.MadeOn j t.ev ∧ t.pre.plane.BindsElsewhere a t.ev
        ∧ ∀ i, i ≠ j → t.pre.plane.Leaves i t.ev → t.pre.plane.lookup i ≠ some a) →
      KeepsSending a h →
      s'.plane.Warm a j
        ∧ ∀ now, ∃ e, (s'.plane.touch a now).byAlloc.get j = some e ∧ e.lastSeen = now := by
  have hS := PlaneState.srcInv_of_reachable hr
  refine ⟨fun e s' hstep hoth => PlaneState.warm_step_iff hS hwarm hoth hstep,
    fun h s' hx hop hsend => ?_⟩
  obtain ⟨hwarm', -, -⟩ := warm_of_sending hS hwarm hx hop hsend
  exact ⟨hwarm', hwarm'.touch⟩

/-- A data packet of one byte for the allocation with the one-byte id `id`. -/
def dataBytes (id : UInt8) : List UInt8 := [0, 0, 0, id, 42]

/-- Two allocations of one agent, bound one after the other to one address. -/
def sharedAddr : List PlaneEvent :=
  [.allocate (go "c1") 1, .allocate (go "c1") 2,
    .armPending 1 (go "c1") (repeatNonce 7) 3, .datagram (punchBytes 1 7) (loopback 4000) 4 4,
    .armPending 2 (go "c1") (repeatNonce 9) 5, .datagram (punchBytes 2 9) (loopback 4000) 6 6]

/-- The old allocation is released, and the data packets of the agent, all sent
well within the idle timeout of 100, no longer keep the new one alive: it is
collected. -/
theorem keepAlive_lost_with_shared_addr :
    ∃ s s' : PlaneState, (planeMachine 100 30 0).Reachable s
      ∧ s.plane.Warm (loopback 4000) 2 ∧ s.plane.OnOther (loopback 4000) 2 (.forget 1)
      ∧ s.step (.forget 1) = some s' ∧ s'.plane.src2id.get (loopback 4000) = none
      ∧ ((planeMachine 100 30 0).run
          [.datagram (dataBytes 2) (loopback 4000) 90 90,
            .gcOnce 120 [(2, ⟨go "c1", loopback 4000, 6⟩)] [] []] s').map
          (fun t => t.plane.byAlloc.get 2) = some none := by
  obtain ⟨h, hx, -⟩ := Machine.exec_of_run (planeMachine 100 30 0) sharedAddr rfl
  refine ⟨_, _, ⟨h, hx⟩, ⟨rfl, _, rfl⟩, show (1 : UInt32) ≠ 2 by decide, rfl, rfl, ?_⟩
  rfl

/-- Two allocations of one agent, bound to an address each. -/
def apartAddr : List PlaneEvent :=
  [.allocate (go "c1") 1, .allocate (go "c1") 2,
    .armPending 1 (go "c1") (repeatNonce 7) 3, .datagram (punchBytes 1 7) (loopback 4000) 4 4,
    .armPending 2 (go "c1") (repeatNonce 9) 5, .datagram (punchBytes 2 9) (loopback 5000) 6 6]

/-- One of them is released, and the other stays alive. -/
theorem keepAlive_kept_apart :
    ∃ s : PlaneState, (planeMachine 100 30 0).Reachable s
      ∧ s.plane.Warm (loopback 5000) 2 ∧ ∃ s', s.step (.forget 1) = some s'
        ∧ s'.plane.Warm (loopback 5000) 2 := by
  obtain ⟨s, hrun, hlook, hwarm⟩ : ∃ s,
      (planeMachine 100 30 0).run apartAddr (planeMachine 100 30 0).init = some s
        ∧ s.plane.lookup 1 = some (loopback 4000) ∧ s.plane.Warm (loopback 5000) 2 :=
    ⟨_, rfl, rfl, rfl, _, rfl⟩
  obtain ⟨h, hx, -⟩ := Machine.exec_of_run _ _ hrun
  refine ⟨s, ⟨h, hx⟩, hwarm, _, rfl, ?_⟩
  refine ((keepAlive_iff_spares ⟨h, hx⟩ hwarm).1 (.forget 1) _ rfl ?_).mpr ?_
  · exact show (1 : UInt32) ≠ 2 by decide
  · rintro i (rfl | ⟨_, hi⟩)
    · refine ⟨by decide, ?_⟩
      rw [hlook]
      decide
    · exact hi.elim
