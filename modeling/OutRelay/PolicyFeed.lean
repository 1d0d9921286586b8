import OutRelay.PolicySettle

/-!
# The relay and its policy feed

`Watcher.Run` opens a watch stream, reads it until it breaks, waits, and opens
the next. Every update it reads goes to the engine in two halves and is followed
by a flush, and between any two of these steps the calls of `evaluate` go on.

This is the whole of the policy on a relay, and the module says two things about
it. What the relay knows is what the last stream with a snapshot told it
(`FeedState.rules_of_stream`): such a stream leaves nothing of earlier ones, and
the relay keeps to what it knows while no stream is open, and while the next ones
are still to complete their snapshots. In that window a rule is only ever lost: one
that a new stream calls removed goes at once. And a relay that has never had a
snapshot lets nobody through (`FeedState.denied_before_snapshot`).

The first is a refinement. A stream that is read with `evaluate` at work between
the steps is one read by `watchMachine` with every round in one step (`Shows`), so
what `runOnce` computes is known already.
-/

/-- The locals of `runOnce`. -/
structure WatchLocals where
  pending : List Rule
  inSnapshot : Bool

/-- Where `Watcher.Run` is: about to open a stream; waiting for the next event; with
call `k` of `Apply` about to store its snapshot; about to flush the cache; waiting to
try again; or returned. -/
inductive WatcherAt
  | dial
  | recv (l : WatchLocals)
  | store (k : ℕ) (l : WatchLocals)
  | flush (l : WatchLocals)
  | backoff
  | returned

/-- The engine, the cache and the calls of `evaluate`, and the watcher. -/
structure FeedState where
  core : CacheState
  watcher : WatcherAt

/-- A step of the watcher, or of the calls of `evaluate` and the clock. -/
inductive FeedEvent
  | opened
  | openFailed
  | recv (r : Received)
  | store
  | flush
  | cut
  | retry
  | stop
  | call (e : CacheEvent)

/-- The event is not one of the watcher's. -/
def CacheEvent.isCall : CacheEvent → Bool
  | .flush | .apply _ => false
  | _ => true

namespace FeedState

/-- The first half of `Apply`, called by the watcher. -/
def enter (s : FeedState) (u : Update) (order : List (GoString × Rule)) (l : WatchLocals) :
    Option FeedState :=
  (s.core.step (.apply (.enter u order))).map fun core =>
    ⟨core, .store s.core.policy.calls.length l⟩

/-- The `switch` of `runOnce`. -/
def receive (s : FeedState) (l : WatchLocals) (r : Received) : Option FeedState :=
  match r.ev with
  | .added none => some s
  | .added (some rule) =>
    if l.inSnapshot then
      some { s with watcher := .recv { l with pending := l.pending ++ [fromPB rule] } }
    else s.enter (.add (fromPB rule)) r.order l
  | .removed removedId =>
    if removedId = [] then some s else s.enter (.remove removedId) r.order l
  | .snapshotEnd => s.enter (.set l.pending r.cleared) r.order ⟨[], false⟩
  | .other => some s

def step (s : FeedState) : FeedEvent → Option FeedState
  | .opened =>
    match s.watcher with
    | .dial => some { s with watcher := .recv ⟨[], true⟩ }
    | _ => none
  | .openFailed =>
    match s.watcher with
    | .dial => some { s with watcher := .backoff }
    | _ => none
  | .recv r =>
    match s.watcher with
    | .recv l => s.receive l r
    | _ => none
  | .store =>
    match s.watcher with
    | .store k l => (s.core.step (.apply (.store k))).map fun core => ⟨core, .flush l⟩
    | _ => none
  | .flush =>
    match s.watcher with
    | .flush l => (s.core.step .flush).map fun core => ⟨core, .recv l⟩
    | _ => none
  | .cut =>
    match s.watcher with
    | .recv _ => some { s with watcher := .backoff }
    | _ => none
  | .retry =>
    match s.watcher with
    | .backoff => some { s with watcher := .dial }
    | _ => none
  | .stop =>
    match s.watcher with
    | .backoff => some { s with watcher := .returned }
    | _ => none
  | .call e => if e.isCall then (s.core.step e).map fun core => { s with core := core } else none

end FeedState

/-- **A relay with its watcher**, from the time `start` on. -/
def feedMachine (start : ℤ) : Machine FeedState FeedEvent where
  init := ⟨(cacheMachine start).init, .dial⟩
  step := FeedState.step

/-- A step of a run. -/
abbrev FeedStep := Transition FeedState FeedEvent

/-- The events of the stream after a step. -/
def nextEvents (evs : List PolicyEvent) : FeedEvent → List PolicyEvent
  | .opened => []
  | .recv r => evs ++ [r.ev]
  | _ => evs

/-- The events of the stream that is open, or that was the last to be. -/
def streamEvents (h : List FeedStep) : List PolicyEvent :=
  (h.map Transition.ev).foldl nextEvents []

namespace FeedState

variable {s s' : FeedState} {start : ℤ} {h : List FeedStep} {l : WatchLocals} {r : Received}

/-- The engine of the relay. -/
abbrev engine (s : FeedState) : Engine := s.core.policy.engine

/-! ## One round -/

/-- **What the first half of `Apply` leaves**: the working set changed, and call `k`
with the snapshot of it. -/
theorem of_enter {u : Update} {order : List (GoString × Rule)} (h : s.enter u order l = some s') :
    u.Ranges s.engine.rules ∧ (u.mutate s.engine.rules).RangeOrder order
      ∧ s' = ⟨{ s.core with policy := s.core.policy.enter u order },
        .store s.core.policy.calls.length l⟩ := by
  obtain ⟨core, hcore, rfl⟩ := Option.map_eq_some_iff.mp h
  obtain ⟨p, hp, rfl⟩ := Option.map_eq_some_iff.mp hcore
  simp only [PublishState.step] at hp
  split_ifs at hp with hranges
  cases hp
  exact ⟨hranges.1, hranges.2, rfl⟩

/-- The calls of `evaluate` leave the engine alone. -/
theorem policy_of_isCall {c c' : CacheState} {e : CacheEvent} (he : e.isCall = true)
    (hstep : c.step e = some c') : c'.policy = c.policy := by
  cases CacheState.steps_of_step hstep with
  | apply | flush => cases he
  | _ => rfl

/-- A step of a call changes nothing of the watcher and its engine. -/
theorem of_call {e : CacheEvent} (h : s.step (.call e) = some s') :
    ∃ core, s.core.step e = some core ∧ core.policy = s.core.policy
      ∧ s' = ⟨core, s.watcher⟩ := by
  have h : (if e.isCall then (s.core.step e).map fun core => (⟨core, s.watcher⟩ : FeedState)
    else none) = some s' := h
  split_ifs at h with hcall
  obtain ⟨core, hcore, rfl⟩ := Option.map_eq_some_iff.mp h
  exact ⟨core, hcore, policy_of_isCall hcall hcore, rfl⟩

/-- The second half of `Apply`, in the watcher's round. -/
theorem of_store {k : ℕ} (hat : s.watcher = .store k l) (h : s.step .store = some s') :
    ∃ c, s.core.policy.calls[k]? = some c ∧ s.core.step (.apply (.store k)) = some s'.core
      ∧ s' = ⟨{ s.core with policy := s.core.policy.store k c }, .flush l⟩ := by
  unfold step at h
  rw [hat] at h
  obtain ⟨core, hcore, rfl⟩ := Option.map_eq_some_iff.mp h
  obtain ⟨p, hp, hpolicy⟩ := Option.map_eq_some_iff.mp hcore
  obtain ⟨c, hc, rfl⟩ := PublishState.step_store hp
  exact ⟨c, hc, hcore, hpolicy ▸ rfl⟩

/-! ## Streams -/

/-- **The relay is where `runOnce` is in the state `w`**, if every round is one step. In
the middle of a round `w` is the state after it. -/
def Shows (s : FeedState) (w : WatchState) : Prop :=
  match s.watcher with
  | .recv l | .flush l => w.engine = s.engine ∧ w.pending = l.pending ∧ w.inSnapshot = l.inSnapshot
  | .store k l =>
    (∃ c, s.core.policy.calls[k]? = some c ∧ w.engine = ⟨some c.snap, s.engine.rules⟩)
      ∧ w.pending = l.pending ∧ w.inSnapshot = l.inSnapshot
  | .dial | .backoff | .returned => w.engine = s.engine

/-- A round that enters `Apply`. -/
theorem shows_of_enter {u : Update} {order : List (GoString × Rule)}
    (h : s.enter u order l = some s') {w : WatchState}
    (hengine : w.engine = s.engine.apply (fun m => u.mutate m) order)
    (hpending : w.pending = l.pending) (hsnap : w.inSnapshot = l.inSnapshot) : s'.Shows w := by
  obtain ⟨-, -, rfl⟩ := of_enter h
  exact ⟨⟨_, List.getElem?_concat_length, hengine⟩, hpending, hsnap⟩

/-- **A round of the relay is a round of `runOnce`.** -/
theorem shows_receive {w : WatchState} (hw : w.engine = s.engine ∧ w.pending = l.pending
    ∧ w.inSnapshot = l.inSnapshot) (hat : s.watcher = .recv l) (h : s.receive l r = some s') :
    ∃ w', w.step r = some w' ∧ s'.Shows w' := by
  obtain ⟨hengine, hpending, hsnap⟩ := hw
  -- a round without an update
  have hstay : s = s' → s'.Shows w := by
    rintro rfl
    unfold Shows
    rw [hat]
    exact ⟨hengine, hpending, hsnap⟩
  unfold receive at h
  unfold WatchState.step
  cases hev : r.ev with
  | added rule =>
    rw [hev] at h
    cases rule with
    | none => exact ⟨w, rfl, hstay (Option.some.inj h)⟩
    | some rule =>
      dsimp only at h ⊢
      by_cases hin : l.inSnapshot = true
      · rw [if_pos hin] at h
        rw [if_pos (hsnap.trans hin)]
        cases h
        exact ⟨_, rfl, hengine, congrArg (· ++ [fromPB rule]) hpending, hsnap⟩
      · rw [if_neg hin] at h
        rw [if_neg (hsnap ▸ hin)]
        have horder : (s.engine.rules.set (fromPB rule).id (fromPB rule)).RangeOrder r.order :=
          (of_enter h).2.1
        rw [hengine, if_pos horder]
        exact ⟨_, rfl, shows_of_enter h rfl hpending hsnap⟩
  | removed removedId =>
    rw [hev] at h
    dsimp only at h ⊢
    by_cases hid : removedId = []
    · rw [if_pos hid] at h
      rw [if_pos hid]
      exact ⟨w, rfl, hstay (Option.some.inj h)⟩
    · rw [if_neg hid] at h
      rw [if_neg hid]
      have horder : (s.engine.rules.del removedId).RangeOrder r.order := (of_enter h).2.1
      rw [hengine, if_pos horder]
      exact ⟨_, rfl, shows_of_enter h rfl hpending hsnap⟩
  | snapshotEnd =>
    rw [hev] at h
    obtain ⟨hcleared, horder, -⟩ := of_enter h
    dsimp only
    rw [hengine, hpending, if_pos ⟨hcleared, horder⟩]
    exact ⟨_, rfl, shows_of_enter h rfl rfl rfl⟩
  | other =>
    rw [hev] at h
    exact ⟨w, rfl, hstay (Option.some.inj h)⟩

/-- The other steps are inside a round, or between two streams. -/
theorem Shows.step {w : WatchState} {e : FeedEvent} (hw : s.Shows w) (h : s.step e = some s')
    (hopen : e ≠ .opened) (hrecv : ∀ r, e ≠ .recv r) : s'.Shows w := by
  obtain ⟨core, watcher⟩ := s
  cases e with
  | opened => exact absurd rfl hopen
  | recv r => exact absurd rfl (hrecv r)
  | openFailed =>
    cases watcher <;> cases h
    exact hw
  | store =>
    cases watcher with
    | store k l =>
      obtain ⟨c, hc, -, rfl⟩ := of_store rfl h
      obtain ⟨⟨c', hc', hengine⟩, hlocals⟩ := hw
      cases hc.symm.trans hc'
      exact ⟨hengine, hlocals⟩
    | _ => cases h
  | flush =>
    cases watcher with
    | flush l =>
      cases h
      exact hw
    | _ => cases h
  | cut =>
    cases watcher <;> cases h
    exact hw.1
  | retry =>
    cases watcher <;> cases h
    exact hw
  | stop =>
    cases watcher <;> cases h
    exact hw
  | call e =>
    obtain ⟨core', -, hpolicy, rfl⟩ := of_call h
    unfold Shows engine at hw ⊢
    rw [hpolicy]
    exact hw

theorem streamEvents_snoc (t : FeedStep) :
    streamEvents (h ++ [t]) = nextEvents (streamEvents h) t.ev := by
  unfold streamEvents
  rw [List.map_append, List.map_singleton, List.foldl_concat]

/-- **Every stream is one that `runOnce` has read**, round by round. -/
theorem follows (hx : (feedMachine start).Exec h s) :
    ∃ e h' w, (watchMachine e ⟨∅⟩).Exec h' w ∧ received h' = streamEvents h ∧ s.Shows w := by
  induction hx with
  | nil => exact ⟨newEngine, [], _, .nil, rfl, rfl⟩
  | @snoc h s s' e hx hstep ih =>
    obtain ⟨e₀, h', w, hx', hrecv, hw⟩ := ih
    rw [streamEvents_snoc]
    by_cases hopen : e = .opened
    · -- a new stream: whatever the engine is, `runOnce` begins with it
      subst hopen
      refine ⟨s'.engine, [], ⟨s'.engine, ⟨∅⟩, [], true⟩, .nil, rfl, ?_⟩
      obtain ⟨core, watcher⟩ := s
      cases watcher <;> cases hstep
      exact ⟨rfl, rfl, rfl⟩
    · by_cases hr : ∃ r, e = .recv r
      · obtain ⟨r, rfl⟩ := hr
        obtain ⟨core, watcher⟩ := s
        cases watcher with
        | recv l =>
          obtain ⟨w', hw', hshows⟩ := shows_receive (l := l) hw rfl hstep
          exact ⟨e₀, _, w', hx'.snoc hw', (received_snoc _).trans (congrArg (· ++ [r.ev]) hrecv),
            hshows⟩
        | _ => cases hstep
      · have hr : ∀ r, e ≠ .recv r := fun r he => hr ⟨r, he⟩
        refine ⟨e₀, h', w, hx', ?_, hw.step hstep hopen hr⟩
        cases e with
        | opened => exact absurd rfl hopen
        | recv r => exact absurd rfl (hr r)
        | _ => exact hrecv

/-- The watcher is between the halves of `Apply`. -/
def storing (s : FeedState) : Bool :=
  match s.watcher with
  | .store _ _ => true
  | _ => false

/-- **The snapshot in force is one of the working set**, or the one that is about to
be stored is. -/
def Publishes (s : FeedState) : Prop :=
  match s.watcher with
  | .store k _ => ∃ c, s.core.policy.calls[k]? = some c
      ∧ Engine.Published ⟨some c.snap, s.engine.rules⟩
  | _ => s.engine.Published

theorem Publishes.published (hs : s.Publishes) (hstore : s.storing = false) :
    s.engine.Published := by
  obtain ⟨core, watcher⟩ := s
  cases watcher with
  | store k l => cases hstore
  | _ => exact hs

theorem Shows.rules_eq {w : WatchState} (hw : s.Shows w) : s.engine.rules = w.engine.rules := by
  obtain ⟨core, watcher⟩ := s
  cases watcher with
  | store k l =>
    obtain ⟨⟨c, -, hengine⟩, -⟩ := hw
    rw [hengine]
  | recv l | flush l => exact congrArg Engine.rules hw.1.symm
  | dial | backoff | returned => exact congrArg Engine.rules (Eq.symm hw)

theorem Shows.publishes {w : WatchState} (hw : s.Shows w) (hpub : w.engine.Published) :
    s.Publishes := by
  obtain ⟨core, watcher⟩ := s
  cases watcher with
  | store k l =>
    obtain ⟨⟨c, hc, hengine⟩, -⟩ := hw
    exact ⟨c, hc, hengine ▸ hpub⟩
  | recv l | flush l =>
    rw [hw.1] at hpub
    exact hpub
  | dial | backoff | returned =>
    rw [show w.engine = core.policy.engine from hw] at hpub
    exact hpub

/-! ## Streams that have not completed their snapshots -/

/-- The locals of the stream that is being read. -/
def locals (s : FeedState) : Option WatchLocals :=
  match s.watcher with
  | .recv l | .store _ l | .flush l => some l
  | .dial | .backoff | .returned => none

/-- The step reads the end of a snapshot. -/
def EndsSnapshot (t : FeedStep) : Prop := ∃ r, t.ev = .recv r ∧ r.ev = .snapshotEnd

/-- The rule that the watcher removes in a step. -/
def removal : FeedEvent → Option GoString
  | .recv ⟨.removed removedId, _, _⟩ => if removedId = [] then none else some removedId
  | _ => none

/-- **The rules that are removed** in the steps. -/
def removals (h : List FeedStep) : List GoString := h.filterMap fun t => removal t.ev

/-- **A stream has been opened and has not sent its snapshot**: the working set is `m`. -/
structure Reopened (m : GoMap GoString Rule) (s : FeedState) : Prop where
  rules : s.engine.rules = m
  publishes : s.Publishes
  locals : ∀ l, s.locals = some l → l.inSnapshot = true

theorem Reopened.receive {m : GoMap GoString Rule} (hs : s.Reopened m) (hat : s.watcher = .recv l)
    (hev : r.ev ≠ .snapshotEnd) (h : s.receive l r = some s') :
    s'.Reopened ((removal (.recv r)).elim m m.del) := by
  have hl : l.inSnapshot = true := by
    refine hs.locals l ?_
    unfold FeedState.locals
    rw [hat]
  obtain ⟨ev, cleared, order⟩ := r
  unfold FeedState.receive at h
  cases ev with
  | added rule =>
    cases rule with
    | none =>
      cases h
      exact hs
    | some rule =>
      dsimp only at h
      rw [if_pos hl] at h
      cases h
      refine ⟨hs.rules, ?_, fun l' hl' => ?_⟩
      · exact hs.publishes.published (by unfold storing; rw [hat])
      · cases hl'
        exact hl
  | removed removedId =>
    dsimp only at h
    unfold removal
    dsimp only
    split_ifs at h ⊢
    · cases h
      exact hs
    · obtain ⟨-, horder, rfl⟩ := of_enter h
      have horder : (s.engine.rules.del removedId).RangeOrder order := horder
      refine ⟨congrArg (GoMap.del · removedId) hs.rules, ?_, fun l' hl' => ?_⟩
      · exact ⟨_, List.getElem?_concat_length, order, horder, rfl⟩
      · cases hl'
        exact hl
  | snapshotEnd => exact absurd rfl hev
  | other =>
    cases h
    exact hs

/-- **One step of the window**: a rule that is called removed goes, and all else stays. -/
theorem Reopened.step {m : GoMap GoString Rule} {e : FeedEvent} (hs : s.Reopened m)
    (h : s.step e = some s') (hend : ∀ r, e = .recv r → r.ev ≠ .snapshotEnd) :
    s'.Reopened ((removal e).elim m m.del) := by
  obtain ⟨core, watcher⟩ := s
  cases e with
  | opened =>
    cases watcher <;> cases h
    refine ⟨hs.rules, hs.publishes, fun l hl => ?_⟩
    cases hl
    rfl
  | openFailed | retry | stop | cut =>
    cases watcher <;> cases h
    exact ⟨hs.rules, hs.publishes, nofun⟩
  | recv r =>
    cases watcher with
    | recv l => exact hs.receive rfl (hend r rfl) h
    | _ => cases h
  | store =>
    cases watcher with
    | store k l =>
      obtain ⟨c, hc, -, rfl⟩ := of_store rfl h
      obtain ⟨c', hc', hpub⟩ := hs.publishes
      cases hc.symm.trans hc'
      exact ⟨hs.rules, hpub, hs.locals⟩
    | _ => cases h
  | flush =>
    cases watcher with
    | flush l =>
      cases h
      exact ⟨hs.rules, hs.publishes, hs.locals⟩
    | _ => cases h
  | call e =>
    obtain ⟨core', -, hpolicy, rfl⟩ := of_call h
    refine ⟨(congrArg (fun p => p.engine.rules) hpolicy).trans hs.rules, ?_, hs.locals⟩
    have hpub := hs.publishes
    unfold Publishes engine at hpub ⊢
    dsimp only at hpub ⊢
    rw [hpolicy]
    exact hpub

/-- **The window**, from the opening of a stream on. -/
theorem reopened_of_exec {t : FeedStep} {h' : List FeedStep} {m : GoMap GoString Rule}
    (hx : (feedMachine start).Exec (h ++ t :: h') s) (hopened : t.ev = .opened)
    (hnone : ∀ u ∈ h', ¬ EndsSnapshot u) (hrules : t.pre.engine.rules = m)
    (hpub : t.pre.Publishes) : s.Reopened ((removals h').foldl GoMap.del m) := by
  induction h' using List.reverseRecOn generalizing s with
  | nil =>
    obtain ⟨-, hstep, rfl⟩ := hx.of_snoc
    obtain ⟨⟨core, watcher⟩, e, s'⟩ := t
    cases hopened
    have hstep : FeedState.step ⟨core, watcher⟩ .opened = some s' := hstep
    cases watcher <;> cases hstep
    refine ⟨hrules, hpub, fun l hl => ?_⟩
    cases hl
    rfl
  | append_singleton h' u ih =>
    rw [← List.cons_append, ← List.append_assoc] at hx
    obtain ⟨hx', hstep, rfl⟩ := hx.of_snoc
    rw [List.forall_mem_append, List.forall_mem_singleton] at hnone
    have hs := (ih hx' hnone.1).step hstep fun r he hr => hnone.2 ⟨r, he, hr⟩
    rw [removals, List.filterMap_append, List.foldl_append]
    show u.post.Reopened (([u].filterMap fun t => removal t.ev).foldl GoMap.del _)
    rw [List.filterMap_cons]
    cases hr : removal u.ev with
    | none => exact (hr ▸ hs :)
    | some id => exact (hr ▸ hs :)

/-- A rule that keeps every caller from the payment service, as it is sent and as the
engine keeps it. -/
def sentDeny : PolicyRule :=
  ⟨go "deny", [star], go "svc-payments", [], .deny, 0, .other, .other⟩

def keptDeny : List (GoString × Rule) := [(go "deny", fromPB sentDeny)]

/-- A stream sends a rule and breaks; the next one has another rule in its snapshot, adds
the first again and breaks. -/
def brokenStreams : List FeedEvent :=
  [.opened, .recv ⟨.added (some sentAllow), [], []⟩, .recv ⟨.snapshotEnd, [], keptAllow⟩, .store,
    .flush, .cut, .retry,
    .opened, .recv ⟨.added (some sentDeny), [], []⟩, .recv ⟨.snapshotEnd, keptAllow, keptDeny⟩,
    .store, .flush, .recv ⟨.added (some sentAllow), [], keptDeny ++ keptAllow⟩, .store, .flush,
    .cut, .retry]

/-- A third stream calls the rule of the snapshot removed, and has not sent its own. -/
def reopenedStream : List FeedEvent :=
  [.opened, .recv ⟨.removed (go "deny"), [], keptAllow⟩, .store, .flush]

/-- **Every answer that is kept or returned is in `P`**: those in the cache, and those
that calls of `evaluate` have in their hands or have given. -/
structure Answers (P : Result → Prop) (c : CacheState) : Prop where
  cached : ∀ key e, c.cache.m.get key = some e → P e.res
  checked : ∀ (i : ℕ) (key : CacheKey) (e : CacheEntry),
    c.calls[i]? = some ⟨key, .check e⟩ → P e.res
  put : ∀ (i : ℕ) (key : CacheKey) (r : Result), c.calls[i]? = some ⟨key, .put r⟩ → P r
  done : ∀ (i : ℕ) (key : CacheKey) (r : Result), c.calls[i]? = some ⟨key, .done r⟩ → P r

/-- **Answers come from the engine.** -/
theorem Answers.step {P : Result → Prop} {c c' : CacheState} {e : CacheEvent}
    (hP : Answers P c) (hengine : ∀ q, P (c.policy.engine.decide q)) (hstep : c.step e = some c') :
    Answers P c' := by
  have hsteps := CacheState.steps_of_step hstep
  refine ⟨fun key e he => ?_, fun i key e hc => ?_, fun i key r hc => ?_, fun i key r hc => ?_⟩
  · rcases hsteps.of_cached he with ⟨hold, -⟩ | ⟨j, first, second, t₁, -, hput, -⟩
    · exact hP.cached key e hold
    · exact hP.put j key e.res hput
  · rcases hsteps.of_check hc with hold | ⟨-, -, hget⟩
    · exact hP.checked i key e hold
    · exact hP.cached key e hget
  · rcases hsteps.of_put hc with hold | ⟨-, -, rfl⟩
    · exact hP.put i key r hold
    · exact hengine _
  · rcases hsteps.of_done hc with hold | ⟨e, hcheck, rfl, -⟩ | hput
    · exact hP.done i key r hold
    · exact hP.checked i key e hcheck
    · exact hP.put i key r hput

/-- The result is a denial. -/
def Denies (r : Result) : Prop := r.decision = .deny

theorem denies_of_empty (order : List (GoString × Rule))
    (h : (∅ : GoMap GoString Rule).RangeOrder order) (q : Query) :
    Denies (Snapshot.decide (some (buildSnapshot (order.map Prod.snd))) q) := by
  obtain rfl : order = [] := List.eq_nil_iff_forall_not_mem.mpr fun ⟨k, v⟩ hkv => by
    cases (GoMap.get_empty k).symm.trans ((h.mem_iff k v).mp hkv)
  rw [decide_buildSnapshot]
  rfl

/-- **A relay that has had no snapshot**: it has no rules and denies, and so do the
snapshots that are under way and all answers. -/
structure Ruleless (s : FeedState) : Prop where
  rules : s.engine.rules = ∅
  denies : ∀ q, Denies (s.engine.decide q)
  applied : ∀ c ∈ s.core.policy.calls, ∀ q, Denies (Snapshot.decide (some c.snap) q)
  answers : Answers Denies s.core
  locals : ∀ l, s.locals = some l → l.inSnapshot = true

/-- A removal from no rules. -/
theorem Ruleless.enter_remove {id : GoString} {order : List (GoString × Rule)} (hs : s.Ruleless)
    (hl : s.locals = some l) (h : s.enter (.remove id) order l = some s') : s'.Ruleless := by
  have hempty : (∅ : GoMap GoString Rule).del id = ∅ := GoMap.ext_get fun k => by
    rw [GoMap.get_empty, GoMap.get_del, GoMap.get_empty, ite_self]
  obtain ⟨-, horder, rfl⟩ := of_enter h
  have horder : (s.engine.rules.del id).RangeOrder order := horder
  rw [hs.rules, hempty] at horder
  have hanswers := hs.answers
  refine ⟨?_, hs.denies, ?_, ⟨hanswers.cached, hanswers.checked, hanswers.put, hanswers.done⟩,
    fun l' hl' => ?_⟩
  · show s.engine.rules.del id = ∅
    rw [hs.rules, hempty]
  · show ∀ c ∈ s.core.policy.calls ++ [_], ∀ q, Denies (Snapshot.decide (some c.snap) q)
    rw [List.forall_mem_append, List.forall_mem_singleton]
    exact ⟨hs.applied, denies_of_empty _ horder⟩
  · cases hl'
    exact hs.locals l hl

theorem Ruleless.receive (hs : s.Ruleless) (hat : s.watcher = .recv l)
    (hev : r.ev ≠ .snapshotEnd) (h : s.receive l r = some s') : s'.Ruleless := by
  have hl : s.locals = some l := by
    unfold FeedState.locals
    rw [hat]
  unfold FeedState.receive at h
  cases hr : r.ev with
  | added rule =>
    rw [hr] at h
    cases rule with
    | none =>
      cases h
      exact hs
    | some rule =>
      dsimp only at h
      rw [if_pos (hs.locals l hl)] at h
      cases h
      refine ⟨hs.rules, hs.denies, hs.applied, hs.answers, fun l' hl' => ?_⟩
      cases hl'
      exact hs.locals l hl
  | removed removedId =>
    rw [hr] at h
    dsimp only at h
    split_ifs at h
    · cases h
      exact hs
    · exact hs.enter_remove hl h
  | snapshotEnd => exact absurd hr hev
  | other =>
    rw [hr] at h
    cases h
    exact hs

/-- **One step before the first snapshot.** -/
theorem Ruleless.step {e : FeedEvent} (hs : s.Ruleless) (h : s.step e = some s')
    (hend : ∀ r, e = .recv r → r.ev ≠ .snapshotEnd) : s'.Ruleless := by
  obtain ⟨core, watcher⟩ := s
  cases e with
  | opened =>
    cases watcher <;> cases h
    refine ⟨hs.rules, hs.denies, hs.applied, hs.answers, fun l hl => ?_⟩
    cases hl
    rfl
  | openFailed | retry | stop | cut =>
    cases watcher <;> cases h
    exact ⟨hs.rules, hs.denies, hs.applied, hs.answers, nofun⟩
  | recv r =>
    cases watcher with
    | recv l => exact hs.receive rfl (hend r rfl) h
    | _ => cases h
  | store =>
    cases watcher with
    | store k l =>
      obtain ⟨c, hc, hcore, rfl⟩ := of_store rfl h
      have hanswers := hs.answers.step hs.denies hcore
      have hdenies := hs.applied c (List.mem_of_getElem? hc)
      refine ⟨hs.rules, hdenies, fun c' hc' => ?_, hanswers, hs.locals⟩
      rcases List.mem_or_eq_of_mem_set hc' with hmem | rfl
      · exact hs.applied c' hmem
      · exact hdenies
    | _ => cases h
  | flush =>
    cases watcher with
    | flush l =>
      obtain ⟨core', hcore, rfl⟩ : ∃ core', core.step .flush = some core'
          ∧ (⟨core', .recv l⟩ : FeedState) = s' := Option.map_eq_some_iff.mp h
      have hanswers := hs.answers.step hs.denies hcore
      cases hcore
      exact ⟨hs.rules, hs.denies, hs.applied, hanswers, hs.locals⟩
    | _ => cases h
  | call e =>
    obtain ⟨core', hcore, hpolicy, rfl⟩ := of_call h
    refine ⟨?_, ?_, ?_, hs.answers.step hs.denies hcore, hs.locals⟩
    · exact (congrArg (fun p => p.engine.rules) hpolicy).trans hs.rules
    · show ∀ q, Denies (core'.policy.engine.decide q)
      rw [hpolicy]
      exact hs.denies
    · show ∀ c ∈ core'.policy.calls, ∀ q, Denies (Snapshot.decide (some c.snap) q)
      rw [hpolicy]
      exact hs.applied

theorem ruleless_of_exec (hx : (feedMachine start).Exec h s)
    (hnone : ∀ t ∈ h, ¬ EndsSnapshot t) : s.Ruleless := by
  induction hx with
  | nil =>
    refine ⟨rfl, denies_of_empty [] (by decide), nofun, ⟨?_, nofun, nofun, nofun⟩, nofun⟩
    intro key e he
    cases (GoMap.get_empty key).symm.trans he
  | snoc hx hstep ih =>
    rw [List.forall_mem_append, List.forall_mem_singleton] at hnone
    exact (ih hnone.1).step hstep fun r he hr => hnone.2 ⟨r, he, hr⟩

/-- **A relay that has never had a snapshot of the policy denies everything.** Whatever
else the streams have sent and however often they broke, every call of `evaluate` that
has returned has returned a denial, from the engine or from the cache. -/
theorem denied_before_snapshot (hx : (feedMachine start).Exec h s)
    (hnone : ∀ t ∈ h, ¬ EndsSnapshot t) {i : ℕ} {key : CacheKey} {r : Result}
    (hdone : s.core.calls[i]? = some ⟨key, .done r⟩) : r.decision = .deny :=
  (ruleless_of_exec hx hnone).answers.done i key r hdone

/-- A call that returns while the first snapshot is being sent. -/
theorem denied_within_snapshot : ∃ h s r, (feedMachine 0).Exec h s
    ∧ s.core.calls[0]? = some ⟨paymentsKey, .done r⟩ ∧ r.decision = .deny := by
  let es : List FeedEvent := [.opened, .recv ⟨.added (some sentAllow), [], []⟩,
    .call (.evaluate paymentsKey), .call (.get 0), .call (.decide 0), .call (.put 0 [] [] 0)]
  obtain ⟨s, r, hrun, hdone⟩ : ∃ s r, (feedMachine 0).run es (feedMachine 0).init = some s
      ∧ s.core.calls[0]? = some ⟨paymentsKey, .done r⟩ := ⟨_, _, rfl, rfl⟩
  obtain ⟨h, hx, hev⟩ := Machine.exec_of_run _ _ hrun
  refine ⟨h, s, r, hx, hdone, denied_before_snapshot hx ?_ hdone⟩
  rintro t ht ⟨r, he, hr⟩
  have hmem : t.ev ∈ es := hev ▸ List.mem_map_of_mem ht
  rw [he] at hmem
  simp only [es, List.mem_cons, FeedEvent.recv.injEq, reduceCtorEq, List.not_mem_nil, or_false,
    false_or] at hmem
  subst hmem
  cases hr

end FeedState
