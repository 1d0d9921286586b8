import OutRelay.PolicyEngine
import OutRelay.Run

/-!
# Watching the policies

The relay learns its rules from a stream of the controller. The stream opens
with a snapshot – events up to `SNAPSHOT_END` – and goes on with what changes
afterwards. `runOnce` reads one stream to its end: while the snapshot lasts it
collects the rules it is sent, at `SNAPSHOT_END` it hands them to the engine in
one `Set`, and from then on it passes every event to the engine as it comes.

What the working set should be after a stream is its replay (`replay`): an
`ADDED` event inserts or replaces, a `REMOVED` one deletes. The loop has two
branches for `ADDED` and one for `REMOVED`. A removal inside the snapshot is
applied to the engine at once, where the `Set` to come will overwrite it, and
not to the rules collected so far. `rules_of_exec` is what the loop computes;
`replayed_iff` says on which streams it is the replay.
-/

/-! ## Wire rules -/

/-- `pb.Decision`, as far as the relay tells its values apart. -/
inductive WireDecision
  | deny
  | other
  deriving DecidableEq

/-- `pb.P2PMode`. -/
inductive WireP2PMode
  | forbidden
  | required
  | other
  deriving DecidableEq

/-- `pb.RelayMode`. -/
inductive WireRelayMode
  | forward
  | other
  deriving DecidableEq

/-- `pb.PolicyRule`. -/
structure PolicyRule where
  id : GoString
  callerPattern : GoString
  targetPattern : GoString
  methodPattern : GoString
  decision : WireDecision
  expiresUnixMs : Int
  p2pMode : WireP2PMode
  relayMode : WireRelayMode
  deriving DecidableEq

/-- `decisionFromPB`. -/
def decisionFromPB : WireDecision → Decision
  | .deny => .deny
  | .other => .allow

/-- `p2pModeFromPB`. -/
def p2pModeFromPB : WireP2PMode → P2PMode
  | .forbidden => .forbidden
  | .required => .required
  | .other => .allowed

/-- `relayModeFromPB`. -/
def relayModeFromPB : WireRelayMode → RelayMode
  | .forward => .forward
  | .other => .splice

/-- `FromPB`. -/
def fromPB (r : PolicyRule) : Rule where
  id := r.id
  callerPattern := r.callerPattern
  targetPattern := r.targetPattern
  methodPattern := r.methodPattern
  decision := decisionFromPB r.decision
  expiresUnixMs := r.expiresUnixMs
  p2pMode := p2pModeFromPB r.p2pMode
  relayMode := relayModeFromPB r.relayMode

/-- `pb.PolicyEvent`, by its kind: an `ADDED` event may lack its rule, and a
`REMOVED` one its id. -/
inductive PolicyEvent
  | added (rule : Option PolicyRule)
  | removed (removedId : GoString)
  | snapshotEnd
  | other
  deriving DecidableEq

namespace PolicyEvent

/-- **An update that carries what it is about**: a rule, or the id of one. -/
def IsUpdate : PolicyEvent → Prop
  | added rule => rule.isSome
  | removed removedId => removedId ≠ []
  | snapshotEnd => False
  | other => False

/-- The event is about the rule called `id`. -/
def Names (id : GoString) : PolicyEvent → Prop
  | added rule => rule.map PolicyRule.id = some id
  | removed removedId => removedId = id
  | snapshotEnd => False
  | other => False

/-- The event inserts the rule called `id`. -/
def Adds (id : GoString) : PolicyEvent → Prop
  | added rule => rule.map PolicyRule.id = some id
  | _ => False

instance (id : GoString) : DecidablePred (Names id)
  | added rule => inferInstanceAs (Decidable (rule.map PolicyRule.id = some id))
  | removed removedId => inferInstanceAs (Decidable (removedId = id))
  | snapshotEnd => inferInstanceAs (Decidable False)
  | other => inferInstanceAs (Decidable False)

instance (id : GoString) : DecidablePred (Adds id)
  | added rule => inferInstanceAs (Decidable (rule.map PolicyRule.id = some id))
  | removed _ => inferInstanceAs (Decidable False)
  | snapshotEnd => inferInstanceAs (Decidable False)
  | other => inferInstanceAs (Decidable False)

/-- What an event asks of the working set. -/
def update (m : GoMap GoString Rule) : PolicyEvent → GoMap GoString Rule
  | added (some r) => m.set (fromPB r).id (fromPB r)
  | removed removedId => m.del removedId
  | _ => m

end PolicyEvent

/-- **The replay of a stream** over a working set. -/
def replay (m : GoMap GoString Rule) (evs : List PolicyEvent) : GoMap GoString Rule :=
  evs.foldl PolicyEvent.update m

/-! ## The decision cache, as far as the watcher uses it -/

/-- `cacheKey`. -/
structure CacheKey where
  caller : GoString
  target : GoString
  method : GoString
  deriving DecidableEq

/-- `cacheEntry`. -/
structure CacheEntry where
  res : Result
  expires : ℤ
  deriving DecidableEq

/-- `Cache`: the decisions remembered. -/
structure Cache where
  m : GoMap CacheKey CacheEntry

/-- `Cache.Flush`. -/
def Cache.flush (_ : Cache) : Cache := ⟨∅⟩

/-! ## The loop -/

/-- The watcher inside `runOnce`: its engine and cache, and the two locals of
the loop. -/
structure WatchState where
  engine : Engine
  cache : Cache
  pending : List Rule
  inSnapshot : Bool

/-- An event of the stream, with the orders in which the update it causes
ranges over the working set: to clear it, and to build the snapshot. -/
structure Received where
  ev : PolicyEvent
  cleared : List (GoString × Rule)
  order : List (GoString × Rule)

namespace WatchState

/-- An update of the engine, with the flush that follows it. -/
def applied (w : WatchState) (engine : Engine) : WatchState :=
  { w with engine := engine, cache := w.cache.flush }

/-- One round of the loop of `runOnce`. It is defined for the orders the
runtime may take. -/
def step (w : WatchState) (r : Received) : Option WatchState :=
  match r.ev with
  | .added none => some w
  | .added (some rule) =>
    if w.inSnapshot then some { w with pending := w.pending ++ [fromPB rule] }
    else if (w.engine.rules.set (fromPB rule).id (fromPB rule)).RangeOrder r.order then
      some (w.applied (w.engine.add (fromPB rule) r.order))
    else none
  | .removed removedId =>
    if removedId = [] then some w
    else if (w.engine.rules.del removedId).RangeOrder r.order then
      some (w.applied (w.engine.remove removedId r.order))
    else none
  | .snapshotEnd =>
    if w.engine.rules.RangeOrder r.cleared
        ∧ (setRules w.pending r.cleared w.engine.rules).RangeOrder r.order then
      some { w.applied (w.engine.set w.pending r.cleared r.order) with
        pending := [], inSnapshot := false }
    else none
  | .other => some w

end WatchState

/-- `runOnce` on a stream, by an engine and a cache in any state. -/
def watchMachine (engine : Engine) (cache : Cache) : Machine WatchState Received where
  init := ⟨engine, cache, [], true⟩
  step := WatchState.step

/-- The events a run has received. -/
def received (h : List (Transition WatchState Received)) : List PolicyEvent :=
  h.map (fun t => t.ev.ev)

/-- **The snapshot in force is one of the working set.** -/
def Engine.Published (e : Engine) : Prop :=
  ∃ order, e.rules.RangeOrder order ∧ e.cur = some (buildSnapshot (order.map Prod.snd))

/-! ## What the loop computes -/

/-- The rule an event adds to the snapshot. -/
def PolicyEvent.collected : PolicyEvent → Option Rule
  | added rule => rule.map fromPB
  | _ => none

/-- The working set that `SNAPSHOT_END` leaves: the rules collected before it. -/
def snapshotRules (pre : List PolicyEvent) : GoMap GoString Rule :=
  (∅ : GoMap GoString Rule).setAll Rule.id (pre.filterMap PolicyEvent.collected)

namespace WatchState

variable {w w' : WatchState} {r : Received}

/-- **Inside the snapshot** a round collects the rule it is sent. -/
theorem step_inSnapshot (h : w.step r = some w') (hsnap : w.inSnapshot = true)
    (hev : r.ev ≠ .snapshotEnd) :
    w'.inSnapshot = true ∧ w'.pending = w.pending ++ r.ev.collected.toList := by
  unfold step at h
  cases hr : r.ev with
  | snapshotEnd => exact absurd hr hev
  | other =>
    rw [hr] at h
    cases h
    exact ⟨hsnap, (List.append_nil _).symm⟩
  | added rule =>
    rw [hr] at h
    cases rule with
    | none =>
      cases h
      exact ⟨hsnap, (List.append_nil _).symm⟩
    | some rule =>
      simp only [hsnap, if_true] at h
      cases h
      exact ⟨rfl, rfl⟩
  | removed removedId =>
    rw [hr] at h
    simp only at h
    split_ifs at h
    · cases h
      exact ⟨hsnap, (List.append_nil _).symm⟩
    · cases h
      exact ⟨hsnap, (List.append_nil _).symm⟩

/-- **At the end of the snapshot** the rules collected become the working set. -/
theorem step_snapshotEnd (h : w.step r = some w') (hev : r.ev = .snapshotEnd) :
    w'.inSnapshot = false
      ∧ w'.engine.rules = (∅ : GoMap GoString Rule).setAll Rule.id w.pending
      ∧ w'.engine.Published := by
  simp only [step, hev] at h
  split_ifs at h with horders
  cases h
  refine ⟨rfl, ?_, r.order, horders.2, rfl⟩
  show setRules w.pending r.cleared w.engine.rules = _
  unfold setRules
  rw [GoMap.delAll_rangeOrder horders.1]

/-- **After the snapshot** a round does what its event asks. -/
theorem step_live (h : w.step r = some w') (hsnap : w.inSnapshot = false)
    (hev : r.ev.IsUpdate) :
    w'.inSnapshot = false ∧ w'.engine.rules = r.ev.update w.engine.rules
      ∧ w'.engine.Published := by
  unfold step at h
  cases hr : r.ev with
  | snapshotEnd => exact absurd (hr ▸ hev : PolicyEvent.snapshotEnd.IsUpdate) id
  | other => exact absurd (hr ▸ hev : PolicyEvent.other.IsUpdate) id
  | added rule =>
    rw [hr] at h hev
    cases rule with
    | none => exact absurd hev Bool.false_ne_true
    | some rule =>
      simp only [hsnap, if_neg Bool.false_ne_true] at h
      split_ifs at h with horder
      cases h
      exact ⟨hsnap, rfl, r.order, horder, rfl⟩
  | removed removedId =>
    rw [hr] at h hev
    simp only [if_neg (show removedId ≠ [] from hev)] at h
    split_ifs at h with horder
    cases h
    exact ⟨hsnap, rfl, r.order, horder, rfl⟩

end WatchState

section Stream

variable {engine : Engine} {cache : Cache} {s : WatchState}
variable {h : List (Transition WatchState Received)} {pre post : List PolicyEvent}

theorem received_snoc (t : Transition WatchState Received) :
    received (h ++ [t]) = received h ++ [t.ev.ev] := by
  unfold received
  rw [List.map_append, List.map_singleton]

/-- Before `SNAPSHOT_END` the loop holds the rules it was sent. -/
theorem pending_of_exec (hx : (watchMachine engine cache).Exec h s)
    (hpre : ∀ ev ∈ received h, ev ≠ .snapshotEnd) :
    s.inSnapshot = true ∧ s.pending = (received h).filterMap PolicyEvent.collected := by
  induction hx with
  | nil => exact ⟨rfl, rfl⟩
  | snoc hx he ih =>
    rw [received_snoc, List.forall_mem_append, List.forall_mem_singleton] at hpre
    obtain ⟨hsnap, hpend⟩ := ih hpre.1
    obtain ⟨hsnap', hpend'⟩ := WatchState.step_inSnapshot he hsnap hpre.2
    refine ⟨hsnap', ?_⟩
    rw [hpend', hpend, received_snoc, List.filterMap_append]
    congr 1

/-- **What `runOnce` computes.** After a stream of updates with one
`SNAPSHOT_END` in it, the working set is the replay of what followed over the
rules collected before, and the snapshot in force is one of it. -/
theorem rules_of_exec (hx : (watchMachine engine cache).Exec h s)
    (hrecv : received h = pre ++ .snapshotEnd :: post)
    (hpre : ∀ ev ∈ pre, ev ≠ .snapshotEnd) (hpost : ∀ ev ∈ post, ev.IsUpdate) :
    s.inSnapshot = false ∧ s.engine.rules = replay (snapshotRules pre) post
      ∧ s.engine.Published := by
  induction hx generalizing post with
  | nil => exact absurd hrecv.symm (List.append_ne_nil_of_right_ne_nil _ (List.cons_ne_nil _ _))
  | @snoc h s s' e hx he ih =>
    rw [received_snoc] at hrecv
    -- the last event is the `SNAPSHOT_END` itself, or an update after it
    rcases List.eq_nil_or_concat post with rfl | ⟨post', u, rfl⟩
    · obtain ⟨hh, hev⟩ := List.append_inj' hrecv rfl
      obtain ⟨-, hpend⟩ := pending_of_exec hx (hh ▸ hpre)
      obtain ⟨hsnap, hrules, hpub⟩ := WatchState.step_snapshotEnd he (List.singleton_inj.mp hev)
      rw [hpend, hh] at hrules
      exact ⟨hsnap, hrules, hpub⟩
    · rw [List.concat_eq_append] at hrecv hpost ⊢
      rw [← List.cons_append, ← List.append_assoc] at hrecv
      obtain ⟨hh, hev⟩ := List.append_inj' hrecv rfl
      rw [List.forall_mem_append, List.forall_mem_singleton] at hpost
      obtain ⟨hsnap, hrules, -⟩ := ih hh hpost.1
      have hu : e.ev = u := List.singleton_inj.mp hev
      obtain ⟨hsnap', hrules', hpub⟩ := WatchState.step_live he hsnap (hu ▸ hpost.2)
      refine ⟨hsnap', ?_, hpub⟩
      rw [hrules', hrules, hu]
      unfold replay
      rw [List.foldl_append, List.foldl_cons, List.foldl_nil]

end Stream

/-! ## When it is the replay -/

section Replay

variable {id : GoString} {ev : PolicyEvent} {m m' : GoMap GoString Rule}
variable {pre post : List PolicyEvent}

open PolicyEvent

theorem get_update_of_not_names (h : ¬ ev.Names id) : (ev.update m).get id = m.get id := by
  cases ev with
  | added rule =>
    cases rule with
    | none => rfl
    | some r => exact GoMap.get_set_of_ne m _ (fun heq => h (congrArg some heq.symm))
  | removed removedId => exact GoMap.get_del_of_ne m (fun heq => h heq.symm)
  | snapshotEnd => rfl
  | other => rfl

/-- An event about `id` leaves nothing of what was there before. -/
theorem get_update_of_names (h : ev.Names id) :
    (ev.update m).get id = (ev.update m').get id := by
  cases ev with
  | added rule =>
    cases rule with
    | none => cases h
    | some r =>
      obtain rfl : (fromPB r).id = id := Option.some.inj h
      show (m.set _ _).get _ = (m'.set _ _).get _
      rw [GoMap.get_set_self, GoMap.get_set_self]
  | removed removedId =>
    obtain rfl : removedId = id := h
    show (m.del _).get _ = (m'.del _).get _
    rw [GoMap.get_del_self, GoMap.get_del_self]
  | snapshotEnd => exact h.elim
  | other => exact h.elim

/-- **Two working sets agree on `id` after the same events** when one of the
events is about it, or they did before. -/
theorem get_replay_eq_iff (evs : List PolicyEvent) :
    (replay m evs).get id = (replay m' evs).get id
      ↔ (∃ ev ∈ evs, Names id ev) ∨ m.get id = m'.get id := by
  induction evs generalizing m m' with
  | nil => simp [replay]
  | cons ev evs ih =>
    show (replay (ev.update m) evs).get id = (replay (ev.update m') evs).get id ↔ _
    rw [ih, List.exists_mem_cons_iff]
    by_cases hev : ev.Names id
    · have hsame : (ev.update m).get id = (ev.update m').get id := get_update_of_names hev
      simp [hev, hsame]
    · rw [get_update_of_not_names hev, get_update_of_not_names hev]
      simp [hev]

/-- **The last event about `id` removes a rule collected earlier.** -/
def RemovesCollected (pre : List PolicyEvent) (id : GoString) : Prop :=
  ∃ a b, pre = a ++ .removed id :: b ∧ (∃ ev ∈ a, Adds id ev) ∧ ∀ ev ∈ b, ¬ Names id ev

theorem removesCollected_snoc :
    RemovesCollected (pre ++ [ev]) id
      ↔ (ev = .removed id ∧ ∃ ev' ∈ pre, Adds id ev')
        ∨ (¬ ev.Names id ∧ RemovesCollected pre id) := by
  constructor
  · rintro ⟨a, b, hsplit, hadd, hlast⟩
    rcases List.eq_nil_or_concat b with rfl | ⟨b', u, rfl⟩
    · obtain ⟨rfl, hev⟩ := List.append_inj' hsplit rfl
      exact Or.inl ⟨List.singleton_inj.mp hev, hadd⟩
    · rw [List.concat_eq_append] at hsplit hlast
      rw [← List.cons_append, ← List.append_assoc] at hsplit
      obtain ⟨hpre, hev⟩ := List.append_inj' hsplit rfl
      rw [List.forall_mem_append, List.forall_mem_singleton, ← List.singleton_inj.mp hev] at hlast
      exact Or.inr ⟨hlast.2, a, b', hpre, hadd, hlast.1⟩
  · rintro (⟨rfl, hadd⟩ | ⟨hev, a, b, rfl, hadd, hlast⟩)
    · exact ⟨pre, [], rfl, hadd, fun _ h => nomatch h⟩
    · refine ⟨a, b ++ [ev], by simp, hadd, ?_⟩
      rw [List.forall_mem_append, List.forall_mem_singleton]
      exact ⟨hlast, hev⟩

/-- An event that adds a rule is collected. -/
theorem get_snapshotRules_snoc_of_adds (h : ev.Adds id) :
    (snapshotRules (pre ++ [ev])).get id = (ev.update m).get id
      ∧ (ev.update m).get id ≠ none := by
  cases ev with
  | added rule =>
    cases rule with
    | none => cases h
    | some r =>
      obtain rfl : (fromPB r).id = id := Option.some.inj h
      have hupd : ((PolicyEvent.added (some r)).update m).get (fromPB r).id = some (fromPB r) :=
        GoMap.get_set_self m _ _
      rw [hupd]
      unfold snapshotRules GoMap.setAll
      rw [List.filterMap_append, List.foldl_append]
      exact ⟨GoMap.get_set_self _ _ _, Option.some_ne_none _⟩
  | removed removedId => exact h.elim
  | snapshotEnd => exact h.elim
  | other => exact h.elim

/-- Any other event leaves what was collected under `id`. -/
theorem get_snapshotRules_snoc_of_not_adds (h : ¬ ev.Adds id) :
    (snapshotRules (pre ++ [ev])).get id = (snapshotRules pre).get id := by
  unfold snapshotRules GoMap.setAll
  rw [List.filterMap_append, List.foldl_append]
  cases ev with
  | added rule =>
    cases rule with
    | none => rfl
    | some r => exact GoMap.get_set_of_ne _ _ (fun heq => h (congrArg some heq.symm))
  | removed removedId => rfl
  | snapshotEnd => rfl
  | other => rfl

/-- Nothing is collected under `id` when no event adds it. -/
theorem get_snapshotRules_eq_none_iff :
    (snapshotRules pre).get id = none ↔ ∀ ev ∈ pre, ¬ Adds id ev := by
  induction pre using List.reverseRecOn with
  | nil => simp [snapshotRules, GoMap.setAll]
  | append_singleton pre ev ih =>
    rw [List.forall_mem_append, List.forall_mem_singleton, ← ih]
    by_cases hadd : ev.Adds id
    · obtain ⟨hget, hsome⟩ : (snapshotRules (pre ++ [ev])).get id = (ev.update ∅).get id
          ∧ (ev.update ∅).get id ≠ none := get_snapshotRules_snoc_of_adds hadd
      rw [hget]
      simp [hsome, hadd]
    · rw [get_snapshotRules_snoc_of_not_adds hadd]
      simp [hadd]

theorem names_of_adds (h : ev.Adds id) : ev.Names id := by
  cases ev with
  | added rule => exact h
  | removed removedId => exact h.elim
  | snapshotEnd => exact h.elim
  | other => exact h.elim

/-- An event about `id` adds a rule or removes it. -/
theorem adds_or_eq_removed (h : ev.Names id) : ev.Adds id ∨ ev = .removed id := by
  cases ev with
  | added rule => exact Or.inl h
  | removed removedId => exact Or.inr (congrArg removed h)
  | snapshotEnd => exact h.elim
  | other => exact h.elim

/-- **The rules collected are the replay of the snapshot**, under `id`, unless
its last event about `id` removes a rule collected earlier. -/
theorem get_snapshotRules_eq_iff :
    (snapshotRules pre).get id = (replay ∅ pre).get id ↔ ¬ RemovesCollected pre id := by
  induction pre using List.reverseRecOn with
  | nil =>
    refine iff_of_true rfl ?_
    rintro ⟨a, b, hsplit, -⟩
    simp at hsplit
  | append_singleton pre ev ih =>
    have hreplay : replay ∅ (pre ++ [ev]) = ev.update (replay ∅ pre) := by
      unfold replay
      rw [List.foldl_append, List.foldl_cons, List.foldl_nil]
    rw [hreplay, removesCollected_snoc]
    by_cases hnames : ev.Names id
    · rcases adds_or_eq_removed hnames with hadd | rfl
      · refine iff_of_true (get_snapshotRules_snoc_of_adds hadd).1 ?_
        rintro (⟨rfl, -⟩ | ⟨hnot, -⟩)
        · exact hadd
        · exact hnot hnames
      · -- the removal reaches the replay only
        rw [get_snapshotRules_snoc_of_not_adds (show ¬ (removed id).Adds id from fun h => h)]
        show _ = ((replay ∅ pre).del id).get id ↔ _
        rw [GoMap.get_del_self, get_snapshotRules_eq_none_iff]
        simp [hnames]
    · rw [get_update_of_not_names hnames,
        get_snapshotRules_snoc_of_not_adds (fun h => hnames (names_of_adds h)), ih]
      have hne : ev ≠ .removed id := fun heq => hnames (heq ▸ rfl)
      simp [hnames, hne]

end Replay

/-- **A removal that `SNAPSHOT_END` undoes**: the last event about `id` comes
before it, and removes a rule that was already collected. -/
def LostRemoval (pre post : List PolicyEvent) (id : GoString) : Prop :=
  RemovesCollected pre id ∧ ∀ ev ∈ post, ¬ PolicyEvent.Names id ev

/-- **When a stream is replayed faithfully.** Let a watcher, whatever its engine
held, read a stream of updates – `pre`, one `SNAPSHOT_END`, `post`. The snapshot
in force at the end is one of the working set; and the working set is the
replay of all the updates over the empty set exactly when no removal is
lost. -/
theorem replayed_iff {engine : Engine} {cache : Cache} {s : WatchState}
    {h : List (Transition WatchState Received)} {pre post : List PolicyEvent}
    (hx : (watchMachine engine cache).Exec h s)
    (hrecv : received h = pre ++ .snapshotEnd :: post)
    (hup : ∀ ev ∈ pre ++ post, ev.IsUpdate) :
    s.engine.Published
      ∧ (s.engine.rules = replay ∅ (pre ++ post) ↔ ∀ id, ¬ LostRemoval pre post id) := by
  rw [List.forall_mem_append] at hup
  have hpre : ∀ ev ∈ pre, ev ≠ .snapshotEnd := by
    rintro ev hev rfl
    exact hup.1 _ hev
  obtain ⟨-, hrules, hpub⟩ := rules_of_exec hx hrecv hpre hup.2
  refine ⟨hpub, ?_⟩
  have hsplit : replay ∅ (pre ++ post) = replay (replay ∅ pre) post := List.foldl_append
  have hget : ∀ id, (replay (snapshotRules pre) post).get id
      = (replay (replay ∅ pre) post).get id ↔ ¬ LostRemoval pre post id := by
    intro id
    rw [get_replay_eq_iff, get_snapshotRules_eq_iff]
    unfold LostRemoval
    rw [not_and, or_comm, ← imp_iff_not_or]
    simp only [not_forall, not_not, exists_prop]
  rw [hrules, hsplit]
  constructor
  · exact fun heq id => (hget id).mp (congrArg (fun m => GoMap.get m id) heq)
  · exact fun hall => GoMap.ext_get (fun id => (hget id).mpr (hall id))

/-- A rule that lets every caller reach the payment service, as it is sent and
as the engine keeps it. -/
def sentAllow : PolicyRule :=
  ⟨go "allow", [star], go "svc-payments", [], .other, 0, .other, .other⟩

def keptAllow : List (GoString × Rule) := [(go "allow", fromPB sentAllow)]

/-- A rule is added and removed inside the snapshot, and is in force
afterwards. -/
theorem removed_rule_in_force :
    ∃ h s, (watchMachine newEngine ⟨∅⟩).Exec h s
      ∧ received h = [.added (some sentAllow), .removed (go "allow"), .snapshotEnd]
      ∧ s.engine.rules.get (go "allow") = some (fromPB sentAllow)
      ∧ (replay ∅ [.added (some sentAllow), .removed (go "allow")]).get (go "allow") = none
      ∧ (s.engine.decide ⟨go "caller", go "svc-payments", [], 0⟩).decision = .allow := by
  obtain ⟨s, hrun, hget, hallow⟩ :
      ∃ s, (watchMachine newEngine ⟨∅⟩).run
          [⟨.added (some sentAllow), [], []⟩, ⟨.removed (go "allow"), [], []⟩,
            ⟨.snapshotEnd, [], keptAllow⟩] (watchMachine newEngine ⟨∅⟩).init = some s
        ∧ s.engine.rules.get (go "allow") = some (fromPB sentAllow)
        ∧ (s.engine.decide ⟨go "caller", go "svc-payments", [], 0⟩).decision = .allow :=
    ⟨_, rfl, rfl, rfl⟩
  obtain ⟨h, hx, hev⟩ := Machine.exec_of_run _ _ hrun
  refine ⟨h, s, hx, ?_, hget, rfl, hallow⟩
  show h.map (Received.ev ∘ Transition.ev) = _
  rw [← List.map_map, hev]
  rfl

/-- The same rule, removed after the snapshot, is gone. -/
theorem live_removal_replayed :
    ∃ h s, (watchMachine newEngine ⟨∅⟩).Exec h s
      ∧ received h = [.added (some sentAllow), .snapshotEnd, .removed (go "allow")]
      ∧ s.engine.rules = replay ∅ [.added (some sentAllow), .removed (go "allow")] := by
  obtain ⟨s, hrun⟩ :
      ∃ s, (watchMachine newEngine ⟨∅⟩).run
          [⟨.added (some sentAllow), [], []⟩, ⟨.snapshotEnd, [], keptAllow⟩,
            ⟨.removed (go "allow"), [], []⟩] (watchMachine newEngine ⟨∅⟩).init = some s :=
    ⟨_, rfl⟩
  obtain ⟨h, hx, hev⟩ := Machine.exec_of_run _ _ hrun
  have hrecv : received h
      = [.added (some sentAllow)] ++ .snapshotEnd :: [.removed (go "allow")] := by
    show h.map (Received.ev ∘ Transition.ev) = _
    rw [← List.map_map, hev]
    rfl
  refine ⟨h, s, hx, hrecv, ((replayed_iff hx hrecv ?_).2).mpr ?_⟩
  · intro ev hev
    rcases List.mem_pair.mp hev with rfl | rfl
    · rfl
    · show go "allow" ≠ []
      decide
  · rintro id ⟨⟨a, b, hsplit, ⟨ev, hev, -⟩, -⟩, -⟩
    -- the snapshot has one event, so nothing comes before a removal in it
    have hlen := congrArg List.length hsplit
    have hpos := List.length_pos_of_mem hev
    simp only [List.length_append, List.length_cons, List.length_nil] at hlen
    omega
