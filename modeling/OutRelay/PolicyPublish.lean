import OutRelay.PolicyWatch

/-!
# Concurrent updates of the engine

`Apply` takes the engine's mutex to change the working set and to build a
snapshot of it, and releases it before it stores the snapshot. Between the two
another `Apply` may run through its own section, so a snapshot is stored
whenever its goroutine gets to it, and not in the order of the sections.

The machine of this module takes the two halves of every call as its steps.
What one expects of it is that the snapshot in force is one of the working set
whenever no call is under way (`Reflects`). It is, unless the call that stores
last was overtaken: some section after its own changed the working set, and its
snapshot still goes over the newer one (`reflects_iff_lastWins`).
-/

/-- What a caller asks of `Apply`: `Set`, with the order in which it clears the
working set, `Add` or `Remove`. -/
inductive Update
  | set (rules : List Rule) (cleared : List (GoString × Rule))
  | add (r : Rule)
  | remove (id : GoString)

namespace Update

/-- The function handed to `Apply`. -/
def mutate (m : GoMap GoString Rule) : Update → GoMap GoString Rule
  | set rules cleared => setRules rules cleared m
  | add r => m.set r.id r
  | remove id => m.del id

/-- The order in which `Set` clears is one the runtime may take. -/
def Ranges (m : GoMap GoString Rule) : Update → Prop
  | set _ cleared => m.RangeOrder cleared
  | add _ => True
  | remove _ => True

instance (m : GoMap GoString Rule) : DecidablePred (Ranges m)
  | set _ cleared => inferInstanceAs (Decidable (m.RangeOrder cleared))
  | add _ => inferInstanceAs (Decidable True)
  | remove _ => inferInstanceAs (Decidable True)

end Update

/-- **A call of `Apply` past its critical section**: the snapshot it built, the
working set it built it from, and whether it has stored it. -/
structure ApplyCall where
  snap : Snapshot
  rules : GoMap GoString Rule
  stored : Bool

/-- The engine, and the calls that have entered, oldest first. -/
structure PublishState where
  engine : Engine
  calls : List ApplyCall

/-- The two halves of `Apply`; the first comes with the order in which it ranges
over the working set, the second with the number of the call. -/
inductive ApplyStep
  | enter (u : Update) (order : List (GoString × Rule))
  | store (k : ℕ)

namespace PublishState

/-- The critical section of `Apply`. -/
def enter (s : PublishState) (u : Update) (order : List (GoString × Rule)) : PublishState where
  engine := { s.engine with rules := u.mutate s.engine.rules }
  calls := s.calls ++ [⟨buildSnapshot (order.map Prod.snd), u.mutate s.engine.rules, false⟩]

/-- `e.cur.Store(snap)`, by call `k`. -/
def store (s : PublishState) (k : ℕ) (c : ApplyCall) : PublishState where
  engine := { s.engine with cur := some c.snap }
  calls := s.calls.set k { c with stored := true }

/-- One half of some call. -/
def step (s : PublishState) : ApplyStep → Option PublishState
  | .enter u order =>
    if u.Ranges s.engine.rules ∧ (u.mutate s.engine.rules).RangeOrder order then
      some (s.enter u order)
    else none
  | .store k =>
    match s.calls[k]? with
    | some c => if c.stored then none else some (s.store k c)
    | none => none

/-- No `Apply` is between its two halves. -/
def Settled (s : PublishState) : Prop := ∀ c ∈ s.calls, c.stored = true

instance (s : PublishState) : Decidable s.Settled :=
  inferInstanceAs (Decidable (∀ c ∈ s.calls, c.stored = true))

/-- **The snapshot in force is one of the working set** whenever no call is under
way. -/
def Reflects (s : PublishState) : Prop := s.Settled → s.engine.Published

end PublishState

/-- Any number of calls of `Apply`, interleaved. -/
def publishMachine : Machine PublishState ApplyStep where
  init := ⟨newEngine, []⟩
  step := PublishState.step

/-- **A call that is not overtaken** is the two halves in a row. -/
theorem enter_store (s : PublishState) (u : Update) (order : List (GoString × Rule))
    (hu : u.Ranges s.engine.rules) (horder : (u.mutate s.engine.rules).RangeOrder order) :
    ∃ s', publishMachine.run [.enter u order, .store s.calls.length] s = some s'
      ∧ s'.engine = s.engine.apply (fun m => u.mutate m) order := by
  let c : ApplyCall := ⟨buildSnapshot (order.map Prod.snd), u.mutate s.engine.rules, false⟩
  have hlast : (s.enter u order).calls[s.calls.length]? = some c := List.getElem?_concat_length
  refine ⟨(s.enter u order).store s.calls.length c, ?_, rfl⟩
  show (s.step (.enter u order)).bind (fun s₁ => (s₁.step (.store s.calls.length)).bind some) = _
  simp only [PublishState.step, if_pos (And.intro hu horder), Option.bind_some, hlast]
  rfl

/-! ## What a snapshot tells of its rules -/

/-- A snapshot has the rules it was built from. -/
theorem mem_buildSnapshot_iff (rules : List Rule) (r : Rule) :
    (r ∈ (buildSnapshot rules).bucket r.targetPattern ∨ r ∈ (buildSnapshot rules).wildcard)
      ↔ r ∈ rules := by
  obtain ⟨hbucket, hwild⟩ := buildSnapshot_loop rules ⟨∅, []⟩ r.targetPattern
  unfold buildSnapshot
  rw [hbucket, hwild, Snapshot.bucket, GoMap.get_empty, Option.getD_none, List.nil_append,
    List.nil_append, List.mem_filter, List.mem_filter]
  cases r.isWildcard <;> simp

/-- The rules are kept under their ids. -/
def KeyedById (m : GoMap GoString Rule) : Prop := ∀ id r, m.get id = some r → r.id = id

namespace KeyedById

variable {m m' : GoMap GoString Rule} {order order' : List (GoString × Rule)}

theorem empty : KeyedById ∅ := by
  intro id r h
  rw [GoMap.get_empty] at h
  cases h

theorem set (h : KeyedById m) (r : Rule) : KeyedById (m.set r.id r) := by
  intro id r' hget
  rw [GoMap.get_set] at hget
  split_ifs at hget with hid
  · cases hget
    exact hid.symm
  · exact h id r' hget

theorem setAll (h : KeyedById m) (rules : List Rule) : KeyedById (m.setAll Rule.id rules) := by
  induction rules generalizing m with
  | nil => exact h
  | cons r rules ih => exact ih (h.set r)

theorem mutate (h : KeyedById m) (u : Update) : KeyedById (u.mutate m) := by
  cases u with
  | set rules cleared =>
    refine setAll (fun id r hget => ?_) rules
    exact h id r (GoMap.of_get_delAll hget).1
  | add r => exact h.set r
  | remove id => exact fun id' r hget => h id' r (GoMap.of_get_del hget).1

theorem get_iff (h : KeyedById m) (ho : m.RangeOrder order) (id : GoString) (r : Rule) :
    m.get id = some r ↔ r.id = id ∧ r ∈ order.map Prod.snd := by
  rw [← ho.mem_iff, List.mem_map]
  constructor
  · exact fun hmem => ⟨h id r ((ho.mem_iff id r).mp hmem), (id, r), hmem, rfl⟩
  · rintro ⟨rfl, ⟨id, r⟩, hmem, rfl⟩
    rwa [h id r ((ho.mem_iff id r).mp hmem)]

/-- **Different working sets have different snapshots**, whatever the orders they
are ranged in. -/
theorem eq_of_buildSnapshot_eq (h : KeyedById m) (h' : KeyedById m') (ho : m.RangeOrder order)
    (ho' : m'.RangeOrder order')
    (heq : buildSnapshot (order.map Prod.snd) = buildSnapshot (order'.map Prod.snd)) :
    m = m' := by
  refine GoMap.ext_get (fun id => Option.ext (fun r => ?_))
  rw [h.get_iff ho, h'.get_iff ho', ← mem_buildSnapshot_iff, heq, mem_buildSnapshot_iff]

end KeyedById

/-! ## Runs -/

/-- The snapshot of a call is one of the working set it saw. -/
structure ApplyCall.Sound (c : ApplyCall) : Prop where
  keyed : KeyedById c.rules
  built : ∃ order, c.rules.RangeOrder order ∧ c.snap = buildSnapshot (order.map Prod.snd)

namespace PublishState

/-- What every interleaving keeps. -/
structure Inv (s : PublishState) : Prop where
  keyed : KeyedById s.engine.rules
  sound : ∀ c ∈ s.calls, c.Sound

variable {s s' : PublishState} {e : ApplyStep} {k : ℕ} {c : ApplyCall}

theorem step_store (h : s.step (.store k) = some s') :
    ∃ c, s.calls[k]? = some c ∧ s' = s.store k c := by
  simp only [step] at h
  cases hc : s.calls[k]? with
  | none =>
    rw [hc] at h
    cases h
  | some c =>
    rw [hc] at h
    dsimp only at h
    split_ifs at h
    cases h
    exact ⟨c, rfl, rfl⟩

theorem Inv.step (hI : s.Inv) (h : s.step e = some s') : s'.Inv := by
  cases e with
  | enter u order =>
    simp only [PublishState.step] at h
    split_ifs at h with hguard
    cases h
    have hkeyed := hI.keyed.mutate u
    refine ⟨hkeyed, ?_⟩
    show ∀ c ∈ s.calls ++ [_], c.Sound
    rw [List.forall_mem_append, List.forall_mem_singleton]
    exact ⟨hI.sound, hkeyed, order, hguard.2, rfl⟩
  | store k =>
    obtain ⟨c, hc, rfl⟩ := step_store h
    refine ⟨hI.keyed, fun c' hc' => ?_⟩
    rcases List.mem_or_eq_of_mem_set hc' with hmem | rfl
    · exact hI.sound c' hmem
    · obtain ⟨hkeyed, hbuilt⟩ := hI.sound c (List.mem_of_getElem? hc)
      exact ⟨hkeyed, hbuilt⟩

theorem inv_of_reachable (hs : publishMachine.Reachable s) : s.Inv := by
  refine hs.invariant (I := Inv) ⟨KeyedById.empty, fun c hc => ?_⟩ (fun _ hI h => hI.step h)
  cases hc

/-- Every call but the `k`-th has stored its snapshot. -/
def OnlyUnderWay (s : PublishState) (k : ℕ) : Prop :=
  ∀ j c, j ≠ k → s.calls[j]? = some c → c.stored = true

/-- A store settles the engine when no other call is under way. -/
theorem settled_store_iff (hc : s.calls[k]? = some c) :
    (s.store k c).Settled ↔ s.OnlyUnderWay k := by
  unfold Settled OnlyUnderWay
  simp only [List.mem_iff_getElem?, forall_exists_index]
  rw [forall_comm]
  show (∀ j (c' : ApplyCall), (s.calls.set k _)[j]? = some c' → c'.stored = true) ↔ _
  refine forall₂_congr (fun j c' => ?_)
  rw [List.getElem?_set]
  by_cases hj : j = k
  · subst hj
    rw [if_pos rfl, if_pos (List.getElem?_eq_some_iff.mp hc).1]
    refine iff_of_true (fun h => ?_) (fun h => absurd rfl h)
    cases h
    rfl
  · rw [if_neg (Ne.symm hj)]
    simp [hj]

/-- The snapshot of a call is one of the current working set exactly when that is
the working set the call saw. -/
theorem published_store_iff (hI : s.Inv) (hc : s.calls[k]? = some c) :
    (s.store k c).engine.Published ↔ c.rules = s.engine.rules := by
  obtain ⟨hkeyed, order, horder, hsnap⟩ := hI.sound c (List.mem_of_getElem? hc)
  show (∃ order, s.engine.rules.RangeOrder order
    ∧ some c.snap = some (buildSnapshot (order.map Prod.snd))) ↔ _
  constructor
  · rintro ⟨order', horder', heq⟩
    rw [hsnap] at heq
    exact hkeyed.eq_of_buildSnapshot_eq hI.keyed horder horder' (Option.some.inj heq)
  · intro heq
    exact ⟨order, heq ▸ horder, congrArg some hsnap⟩

/-- **The last to store was not overtaken.** A call that stores when no other is
under way saw the working set as it is now. -/
def LastWins (s : PublishState) : ApplyStep → Prop
  | .enter _ _ => True
  | .store k => s.OnlyUnderWay k → ∀ c, s.calls[k]? = some c → c.rules = s.engine.rules

theorem reflects_step_iff (hI : s.Inv) (h : s.step e = some s') :
    s'.Reflects ↔ s.LastWins e := by
  cases e with
  | enter u order =>
    simp only [step] at h
    split_ifs at h
    cases h
    -- the call that has just entered has stored nothing
    refine iff_of_true (fun hset => ?_) trivial
    exact absurd (hset _ (List.mem_append_right _ (List.mem_singleton_self _)))
      Bool.false_ne_true
  | store k =>
    obtain ⟨c, hc, rfl⟩ := step_store h
    show ((s.store k c).Settled → (s.store k c).engine.Published)
      ↔ (s.OnlyUnderWay k → ∀ c', s.calls[k]? = some c' → c'.rules = s.engine.rules)
    rw [settled_store_iff hc, published_store_iff hI hc]
    refine imp_congr_right (fun _ => ⟨fun heq c' hc' => ?_, fun hall => hall c hc⟩)
    cases hc.symm.trans hc'
    exact heq

end PublishState

/-- **When no update is lost.** In a run of any number of concurrent calls of
`Apply`, the snapshot in force is one of the working set whenever no call is
under way, exactly when every call that stores with no other under way saw the
working set as it is then. -/
theorem reflects_iff_lastWins {h : List (Transition PublishState ApplyStep)} {s : PublishState}
    (hx : publishMachine.Exec h s) :
    Machine.Throughout PublishState.Reflects h s
      ↔ ∀ t ∈ h, PublishState.LastWins t.pre t.ev := by
  have hinit : publishMachine.init.Reflects := fun _ => ⟨[], rfl, rfl⟩
  rw [hx.throughout_iff_post, and_iff_right hinit]
  refine forall₂_congr (fun t ht => ?_)
  obtain ⟨hs, hstep⟩ := hx.step_of_mem ht
  exact PublishState.reflects_step_iff (PublishState.inv_of_reachable hs) hstep

/-- A rule that lets every caller reach the payment service. -/
def paymentsAllow : Rule := targetRule (go "allow") (go "svc-payments") .allow

/-- The rule is added, and removed before the first call stores; the second call
stores first. The rule stays in force with nothing in the working set. -/
theorem removed_rule_overtaken :
    ∃ h s, publishMachine.Exec h s ∧ s.Settled ∧ ¬ s.engine.Published
      ∧ s.engine.rules.get (go "allow") = none
      ∧ (s.engine.decide ⟨go "caller", go "svc-payments", [], 0⟩).decision = .allow := by
  obtain ⟨s, hrun, hset, hrules, hallow⟩ :
      ∃ s, publishMachine.run
          [.enter (.add paymentsAllow) [(go "allow", paymentsAllow)],
            .enter (.remove (go "allow")) [], .store 1, .store 0] publishMachine.init = some s
        ∧ s.Settled ∧ s.engine.rules.RangeOrder []
        ∧ (s.engine.decide ⟨go "caller", go "svc-payments", [], 0⟩).decision = .allow :=
    ⟨_, rfl, by decide, by decide, rfl⟩
  obtain ⟨h, hx, -⟩ := Machine.exec_of_run _ _ hrun
  refine ⟨h, s, hx, hset, ?_, ?_, hallow⟩
  · rintro ⟨order, horder, hcur⟩
    obtain rfl := List.perm_nil.mp (horder.perm hrules)
    rw [Engine.decide, hcur] at hallow
    revert hallow
    decide
  · cases hget : s.engine.rules.get (go "allow") with
    | none => rfl
    | some r => cases (hrules.mem_iff _ r).mpr hget

/-- The same two calls, one after the other. -/
theorem removed_rule_gone :
    ∃ h s, publishMachine.Exec h s ∧ h.length = 4
      ∧ Machine.Throughout PublishState.Reflects h s := by
  have hx := (((Machine.Exec.nil (M := publishMachine)).snoc
    (e := .enter (.add paymentsAllow) [(go "allow", paymentsAllow)]) rfl).snoc
    (e := .store 0) rfl).snoc (e := .enter (.remove (go "allow")) []) rfl
  have hx' := hx.snoc (e := .store 1) rfl
  refine ⟨_, _, hx', rfl, (reflects_iff_lastWins hx').mpr ?_⟩
  simp only [List.forall_mem_append, List.forall_mem_singleton]
  refine ⟨⟨⟨⟨fun _ ht => absurd ht List.not_mem_nil, trivial⟩, ?_⟩, trivial⟩, ?_⟩
  · intro _ c hc
    cases hc
    rfl
  · intro _ c hc
    cases hc
    rfl
