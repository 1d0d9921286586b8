import OutRelay.Registry

/-!
# The pair table

Two agents that negotiate a direct path exchange candidate frames through the
relay. A frame names the stream it is about and not its addressee: the relay
finds the other end in `pairs`, a map from stream id to the two URIs. Stream
ids are chosen by the agents, and each writer of the table is keyed by the id
alone.

* The handler of an `OPEN_STREAM` calls `recordPair`, which refuses an id that
  is mapped to a different pair, and `forgetPair` when it returns.
* The goroutine that splices two resumed halves calls `replacePair`, which
  overwrites, and `forgetPair` when the splice ends.

`forgetPair` deletes the row whoever wrote it. So a stream keeps its row for
its whole life only where no two active streams share an id when one of them
ends, and no splice brings a different pair under the id of an active stream –
and this is exact (`routed_iff_keeps`).
-/

/-- `streamPair`: the two ends of a stream. -/
structure StreamPair where
  consumerURI : GoString
  providerURI : GoString
  deriving DecidableEq

/-- `Server.pairs`. -/
abbrev PairTable := GoMap UInt64 StreamPair

/-! ## The four functions -/

/-- `recordPair`: map the id to the pair, unless it is mapped to a different
one. The id `0` is no id, and is never mapped. -/
def recordPair (m : PairTable) (streamID : UInt64) (p : StreamPair) : Bool × PairTable :=
  if streamID = 0 then (true, m)
  else match m.get streamID with
    | some existing => if existing ≠ p then (false, m) else (true, m.set streamID p)
    | none => (true, m.set streamID p)

/-- `replacePair`: map the id to the pair. -/
def replacePair (m : PairTable) (streamID : UInt64) (p : StreamPair) : PairTable :=
  if streamID = 0 then m else m.set streamID p

/-- `forgetPair`. -/
def forgetPair (m : PairTable) (streamID : UInt64) : PairTable :=
  if streamID = 0 then m else m.del streamID

/-- `peerOf`: the other end of the stream, and the empty string where the
stream is unknown or the caller is neither end. -/
def peerOf (m : PairTable) (streamID : UInt64) (callerURI : GoString) : GoString :=
  match m.get streamID with
  | none => []
  | some p =>
    if callerURI = p.consumerURI then p.providerURI
    else if callerURI = p.providerURI then p.consumerURI
    else []

/-- **When `recordPair` accepts**: where the id has no row, or the row is the
same pair. -/
theorem recordPair_fst {m : PairTable} {sid : UInt64} {p : StreamPair} :
    (recordPair m sid p).fst = true ↔ (sid ≠ 0 → ∀ q, m.get sid = some q → q = p) := by
  unfold recordPair
  split_ifs with h₀
  · simp [h₀]
  · cases m.get sid with
    | none => simp
    | some q =>
      by_cases hq : q = p
      · simp [hq]
      · simp [h₀, hq]

/-- A row after `replacePair` was there before, or is the one that was written. -/
theorem of_get_replacePair {m : PairTable} {sid sid' : UInt64} {p q : StreamPair}
    (hq : (replacePair m sid p).get sid' = some q) :
    m.get sid' = some q ∨ (sid' ≠ 0 ∧ sid' = sid ∧ q = p) := by
  unfold replacePair at hq
  split_ifs at hq with h₀
  · exact Or.inl hq
  · rw [GoMap.get_set] at hq
    split_ifs at hq with hsid
    · cases hq
      exact Or.inr ⟨hsid ▸ h₀, hsid, rfl⟩
    · exact Or.inl hq

/-- `recordPair` writes the row where it accepts, and leaves the table otherwise. -/
theorem recordPair_snd {m : PairTable} {sid : UInt64} {p : StreamPair} :
    (recordPair m sid p).snd = if (recordPair m sid p).fst then replacePair m sid p else m := by
  unfold recordPair replacePair
  by_cases h₀ : sid = 0
  · simp [h₀]
  · cases m.get sid with
    | none => simp [h₀]
    | some q => by_cases hq : q = p <;> simp [h₀, hq]

theorem of_get_recordPair {m : PairTable} {sid sid' : UInt64} {p q : StreamPair}
    (hq : (recordPair m sid p).snd.get sid' = some q) :
    m.get sid' = some q
      ∨ (sid' ≠ 0 ∧ sid' = sid ∧ q = p ∧ (recordPair m sid p).fst = true) := by
  rw [recordPair_snd] at hq
  split_ifs at hq with hfst
  · exact (of_get_replacePair hq).imp_right fun ⟨h₀, hsid, hp⟩ => ⟨h₀, hsid, hp, hfst⟩
  · exact Or.inl hq

/-- A row after `forgetPair` was there before, and is not that of the id. -/
theorem of_get_forgetPair {m : PairTable} {sid sid' : UInt64} {q : StreamPair}
    (hq : (forgetPair m sid).get sid' = some q) :
    m.get sid' = some q ∧ (sid ≠ 0 → sid' ≠ sid) := by
  unfold forgetPair at hq
  split_ifs at hq with h₀
  · exact ⟨hq, fun hne => absurd h₀ hne⟩
  · obtain ⟨hold, hne⟩ := GoMap.of_get_del hq
    exact ⟨hold, fun _ => hne⟩

/-- The pair has `x` and `y` at its ends, in either role. -/
def StreamPair.Joins (p : StreamPair) (x y : GoString) : Prop :=
  p = ⟨x, y⟩ ∨ p = ⟨y, x⟩

theorem StreamPair.joins_comm {p : StreamPair} {x y : GoString} : p.Joins x y ↔ p.Joins y x :=
  or_comm

/-- **What `peerOf` answers** one end: the other, exactly where the row of the
stream joins them. -/
theorem peerOf_eq_iff {m : PairTable} {sid : UInt64} {x y : GoString} (hy : y ≠ []) :
    peerOf m sid x = y ↔ ∃ p, m.get sid = some p ∧ p.Joins x y := by
  unfold peerOf
  cases m.get sid with
  | none =>
    constructor
    · exact fun h => absurd h.symm hy
    · exact fun ⟨_, hp, _⟩ => nomatch hp
  | some p =>
    obtain ⟨c, q⟩ := p
    simp only [Option.some.injEq, exists_eq_left', StreamPair.Joins, StreamPair.mk.injEq]
    constructor
    · intro h
      split_ifs at h with hc hq
      · exact Or.inl ⟨hc.symm, h⟩
      · exact Or.inr ⟨h, hq.symm⟩
      · exact absurd h.symm hy
    · rintro (⟨rfl, rfl⟩ | ⟨rfl, rfl⟩)
      · exact if_pos rfl
      · split_ifs with h h'
        · exact h
        · rfl
        · exact absurd rfl h'

/-- It routes between `x` and `y` exactly where the row joins them. -/
theorem peerOf_iff {m : PairTable} {sid : UInt64} {x y : GoString} (hx : x ≠ []) (hy : y ≠ []) :
    (peerOf m sid x = y ∧ peerOf m sid y = x) ↔ ∃ p, m.get sid = some p ∧ p.Joins x y := by
  rw [peerOf_eq_iff hy, peerOf_eq_iff hx]
  refine and_iff_left_of_imp ?_
  rintro ⟨p, hp, hj⟩
  exact ⟨p, hp, StreamPair.joins_comm.mp hj⟩

/-! ## The streams of a relay -/

/-- A goroutine that has written its row and has not yet run its deferred
`forgetPair`: a stream `sid` between the agents `x` and `y`. -/
structure ActiveStream where
  sid : UInt64
  x : AgentURI
  y : AgentURI

/-- The table and the active streams, by the number of the goroutine. -/
structure PairState where
  pairs : PairTable
  active : GoMap ℕ ActiveStream
  started : ℕ

/-- An `OPEN_STREAM` reaches `recordPair`; a matched pair of halves reaches
`splicePair`; a goroutine runs its deferred `forgetPair`. -/
inductive PairEvent
  | openStream (sid : UInt64) (consumer provider : AgentURI)
  | splicePair (sid : UInt64) (self peer : AgentURI)
  | finish (i : ℕ)

namespace PairState

/-- A new goroutine, and the table as it leaves it. -/
def start (s : PairState) (pairs : PairTable) (a : ActiveStream) : PairState :=
  { pairs := pairs, active := s.active.set s.started a, started := s.started + 1 }

def step (s : PairState) : PairEvent → Option PairState
  | .openStream sid consumer provider =>
    match recordPair s.pairs sid ⟨consumer.val, provider.val⟩ with
    | (true, pairs) => some (s.start pairs ⟨sid, consumer, provider⟩)
    | (false, _) => some s
  | .splicePair sid self peer =>
    some (s.start (replacePair s.pairs sid ⟨self.val, peer.val⟩) ⟨sid, self, peer⟩)
  | .finish i =>
    (s.active.get i).map (fun a =>
      { s with pairs := forgetPair s.pairs a.sid, active := s.active.del i })

/-- **Every active stream is routed**: `peerOf` answers each of its ends with
the other. -/
def Routed (s : PairState) : Prop :=
  ∀ i a, s.active.get i = some a → a.sid ≠ 0 →
    peerOf s.pairs a.sid a.x.val = a.y.val ∧ peerOf s.pairs a.sid a.y.val = a.x.val

/-- **The step keeps the rows of the other streams**: a stream that ends shares
its id with no other active stream, and a splice has the ends of the active
streams under its id. An `OPEN_STREAM` always does. -/
def Keeps (s : PairState) : PairEvent → Prop
  | .openStream _ _ _ => True
  | .splicePair sid self peer => sid ≠ 0 → ∀ i a, s.active.get i = some a → a.sid = sid →
      StreamPair.Joins ⟨self.val, peer.val⟩ a.x.val a.y.val
  | .finish i => ∀ a, s.active.get i = some a → a.sid ≠ 0 →
      ∀ j b, s.active.get j = some b → b.sid = a.sid → j = i

end PairState

/-- The pair table from the start of the relay. -/
def pairMachine : Machine PairState PairEvent where
  init := { pairs := ∅, active := ∅, started := 0 }
  step := PairState.step

namespace PairState

variable {s s' : PairState} {e : PairEvent} {i j : ℕ} {a b : ActiveStream}

/-- A stream is routed where its row joins its ends. -/
theorem routed_iff : s.Routed ↔ ∀ i a, s.active.get i = some a → a.sid ≠ 0 →
    ∃ p, s.pairs.get a.sid = some p ∧ p.Joins a.x.val a.y.val := by
  unfold Routed
  refine forall_congr' fun i => forall_congr' fun a => forall_congr' fun _ =>
    forall_congr' fun _ => ?_
  exact peerOf_iff a.x.property a.y.property

/-- **The invariant of the good runs**: every active stream is routed, and no
goroutine has a number that is still to be given out. -/
structure RoutingInv (s : PairState) : Prop where
  routed : s.Routed
  fresh : ∀ i a, s.active.get i = some a → i < s.started

theorem RoutingInv.joins (I : RoutingInv s) (hi : s.active.get i = some a) (hsid : a.sid ≠ 0) :
    ∃ p, s.pairs.get a.sid = some p ∧ p.Joins a.x.val a.y.val :=
  routed_iff.mp I.routed i a hi hsid

/-- The active streams after a new one. -/
theorem active_start {pairs : PairTable} {c : ActiveStream}
    (hi : (s.start pairs c).active.get i = some a) :
    (i = s.started ∧ a = c) ∨ s.active.get i = some a := by
  unfold start at hi
  rw [GoMap.get_set] at hi
  split_ifs at hi with h
  · cases hi
    exact Or.inl ⟨h, rfl⟩
  · exact Or.inr hi

/-- The other streams stay active. -/
theorem RoutingInv.active_start_of_get {pairs : PairTable} {c : ActiveStream} (I : RoutingInv s)
    (hi : s.active.get i = some a) : (s.start pairs c).active.get i = some a := by
  unfold start
  rw [GoMap.get_set_of_ne _ _ (Nat.ne_of_lt (I.fresh i a hi))]
  exact hi

/-- **A new stream**, whose row joins the ends of every active stream under its
id, keeps the invariant. -/
theorem RoutingInv.start {c : ActiveStream} (I : RoutingInv s)
    (hold : c.sid ≠ 0 → ∀ i a, s.active.get i = some a → a.sid = c.sid →
      StreamPair.Joins ⟨c.x.val, c.y.val⟩ a.x.val a.y.val) :
    RoutingInv (s.start (replacePair s.pairs c.sid ⟨c.x.val, c.y.val⟩) c) := by
  constructor
  · rw [routed_iff]
    intro i a hi hsid
    have hget : (s.start (replacePair s.pairs c.sid ⟨c.x.val, c.y.val⟩) c).pairs.get a.sid
        = if a.sid = c.sid then some ⟨c.x.val, c.y.val⟩ else s.pairs.get a.sid := by
      unfold PairState.start replacePair
      split_ifs with h₀ h₁ h₁
      · exact absurd (h₁.trans h₀) hsid
      · rfl
      · rw [h₁]
        exact GoMap.get_set_self _ _ _
      · exact GoMap.get_set_of_ne _ _ h₁
    rw [hget]
    rcases active_start hi with ⟨-, rfl⟩ | hi
    · exact ⟨_, if_pos rfl, Or.inl rfl⟩
    · split_ifs with h
      · exact ⟨_, rfl, hold (h ▸ hsid) i a hi h⟩
      · exact I.joins hi hsid
  · intro i a hi
    rcases active_start hi with ⟨rfl, -⟩ | hi
    · exact Nat.lt_succ_self _
    · exact Nat.lt_succ_of_lt (I.fresh i a hi)

/-- **`recordPair` accepts** the ends of the active streams and no others. -/
theorem RoutingInv.of_record {sid : UInt64} {p : StreamPair} {pairs : PairTable}
    (I : RoutingInv s) (hrec : recordPair s.pairs sid p = (true, pairs)) :
    pairs = replacePair s.pairs sid p
      ∧ (sid ≠ 0 → ∀ i a, s.active.get i = some a → a.sid = sid → p.Joins a.x.val a.y.val) := by
  unfold recordPair at hrec
  unfold replacePair
  split_ifs at hrec ⊢ with h₀
  · cases hrec
    exact ⟨rfl, fun h => absurd h₀ h⟩
  · have hrow : ∀ i a, s.active.get i = some a → a.sid = sid →
        ∃ q, s.pairs.get sid = some q ∧ q.Joins a.x.val a.y.val := by
      rintro i a hi rfl
      exact I.joins hi h₀
    cases hget : s.pairs.get sid with
    | none =>
      rw [hget] at hrec hrow
      cases hrec
      refine ⟨rfl, fun _ i a hi hsid => ?_⟩
      obtain ⟨_, hq, -⟩ := hrow i a hi hsid
      cases hq
    | some q =>
      rw [hget] at hrec hrow
      dsimp only at hrec
      split_ifs at hrec with hne
      · cases hrec
      · cases hrec
        refine ⟨rfl, fun _ i a hi hsid => ?_⟩
        obtain ⟨q', hq, hj⟩ := hrow i a hi hsid
        cases hq
        rwa [not_not.mp hne] at hj

/-- What a finished stream leaves active. -/
theorem step_finish (hstep : s.step (.finish i) = some s') :
    ∃ a, s.active.get i = some a
      ∧ s' = { s with pairs := forgetPair s.pairs a.sid, active := s.active.del i } := by
  obtain ⟨a, ha, rfl⟩ := Option.map_eq_some_iff.mp hstep
  exact ⟨a, ha, rfl⟩

/-- **A step that keeps the other rows keeps the invariant.** -/
theorem routingInv_step (I : RoutingInv s) (he : s.Keeps e) (hstep : s.step e = some s') :
    RoutingInv s' := by
  cases e with
  | openStream sid c p =>
    rcases hrec : recordPair s.pairs sid ⟨c.val, p.val⟩ with ⟨ok, pairs⟩
    simp only [step, hrec] at hstep
    cases ok with
    | false =>
      cases hstep
      exact I
    | true =>
      cases hstep
      obtain ⟨rfl, hold⟩ := I.of_record hrec
      exact I.start (c := ⟨sid, c, p⟩) hold
  | splicePair sid x y =>
    cases hstep
    exact I.start (c := ⟨sid, x, y⟩) he
  | finish i =>
    obtain ⟨a, ha, rfl⟩ := step_finish hstep
    refine ⟨routed_iff.mpr fun j b hj hsid => ?_, fun j b hj => ?_⟩
    · obtain ⟨hj, hne⟩ := GoMap.of_get_del hj
      have hother : a.sid ≠ 0 → b.sid ≠ a.sid := fun h₀ h => hne (he a ha h₀ j b hj h)
      have hrow : (forgetPair s.pairs a.sid).get b.sid = s.pairs.get b.sid := by
        unfold forgetPair
        split_ifs with h₀
        · rfl
        · exact GoMap.get_del_of_ne _ (hother h₀)
      rw [hrow]
      exact I.joins hj hsid
    · exact I.fresh j b (GoMap.of_get_del hj).1

/-- **A step that does not loses a stream.** -/
theorem not_routed_of_not_keeps (I : RoutingInv s) (he : ¬ s.Keeps e)
    (hstep : s.step e = some s') : ¬ s'.Routed := by
  intro hr
  rw [routed_iff] at hr
  cases e with
  | openStream sid c p => exact he trivial
  | splicePair sid x y =>
    cases hstep
    refine he fun h₀ i a hi hsid => ?_
    obtain ⟨p, hp, hj⟩ := hr i a (I.active_start_of_get hi) (hsid ▸ h₀)
    have hrow : (replacePair s.pairs sid ⟨x.val, y.val⟩).get a.sid = some ⟨x.val, y.val⟩ := by
      rw [replacePair, if_neg h₀, hsid, GoMap.get_set_self]
    cases hrow.symm.trans hp
    exact hj
  | finish i =>
    obtain ⟨a, ha, rfl⟩ := step_finish hstep
    refine he fun a' ha' h₀ j b hj hsid => ?_
    cases ha.symm.trans ha'
    by_contra hne
    obtain ⟨p, hp, -⟩ := hr j b ((GoMap.get_del_of_ne _ hne).trans hj) (hsid ▸ h₀)
    have hrow : (forgetPair s.pairs a.sid).get b.sid = none := by
      rw [forgetPair, if_neg h₀, hsid, GoMap.get_del_self]
    cases hrow.symm.trans hp

/-- An `OPEN_STREAM` under the id of a routed stream of other agents is
refused. -/
theorem RoutingInv.refuses {c p : AgentURI} (I : RoutingInv s)
    (hi : s.active.get i = some a) (h₀ : a.sid ≠ 0)
    (hne : ¬ StreamPair.Joins ⟨c.val, p.val⟩ a.x.val a.y.val) :
    s.step (.openStream a.sid c p) = some s := by
  rcases hrec : recordPair s.pairs a.sid ⟨c.val, p.val⟩ with ⟨ok, pairs⟩
  simp only [step, hrec]
  cases ok with
  | false => rfl
  | true => exact absurd ((I.of_record hrec).2 h₀ i a hi rfl) hne

end PairState

/-- **When routing holds for the life of every stream.** In a run of the pair
table every active stream is routed in every state exactly when every step
keeps the rows of the other streams. In such a run an `OPEN_STREAM` under the
id of an active stream of other agents is refused, and changes nothing. -/
theorem routed_iff_keeps {h : List (Transition PairState PairEvent)} {s : PairState}
    (hx : pairMachine.Exec h s) :
    (Machine.Throughout PairState.Routed h s ↔ ∀ t ∈ h, PairState.Keeps t.pre t.ev)
      ∧ (Machine.Throughout PairState.Routed h s →
        ∀ t ∈ h, ∀ sid c p, t.ev = .openStream sid c p →
          ∀ i a, t.pre.active.get i = some a → a.sid = sid → sid ≠ 0 →
            ¬ StreamPair.Joins ⟨c.val, p.val⟩ a.x.val a.y.val → t.post = t.pre) := by
  have hinit : PairState.RoutingInv pairMachine.init :=
    ⟨fun _ _ hi => (nomatch hi), fun _ _ hi => (nomatch hi)⟩
  have hiff := hx.throughout_iff (P := PairState.Routed) hinit (fun I => I.routed)
    (fun _ I he hstep => PairState.routingInv_step I he hstep)
    (fun _ I he hstep => PairState.not_routed_of_not_keeps I he hstep)
  refine ⟨hiff, fun hr t ht sid c p hev i a hi hsid h₀ hne => ?_⟩
  subst hsid
  have I := (hx.invariant_of_guard (I := PairState.RoutingInv) hinit
    (fun _ I he hstep => PairState.routingInv_step I he hstep) (hiff.mp hr)).2 t ht
  have hstep := (hx.step_of_mem ht).2
  rw [hev] at hstep
  exact Option.some.inj (hstep.symm.trans (I.refuses hi h₀ hne))

/-- The agent at the other end. -/
def agentP : AgentURI := ⟨go "outrelay://acme/agent/p1", by decide⟩

/-- A stream is resumed on the relay it was opened on, and the handler of the
first attempt returns only then. -/
def lateReturn : List PairEvent :=
  [.openStream 7 agentC agentP, .splicePair 7 agentP agentC, .finish 0]

/-- The handler of the first attempt takes the row of the resumed stream with
it. The splice is active, and neither end has a peer. -/
theorem resumed_stream_unrouted :
    ∃ s, pairMachine.Reachable s ∧ ¬ s.Routed
      ∧ s.active.get 1 = some ⟨7, agentP, agentC⟩
      ∧ peerOf s.pairs 7 agentP.val = [] ∧ peerOf s.pairs 7 agentC.val = [] := by
  obtain ⟨s, hrun, hact, hp, hc⟩ : ∃ s, pairMachine.run lateReturn pairMachine.init = some s
      ∧ s.active.get 1 = some ⟨7, agentP, agentC⟩
      ∧ peerOf s.pairs 7 agentP.val = [] ∧ peerOf s.pairs 7 agentC.val = [] :=
    ⟨_, rfl, rfl, rfl, rfl⟩
  obtain ⟨h, hx, -⟩ := Machine.exec_of_run _ _ hrun
  refine ⟨s, ⟨h, hx⟩, fun hr => ?_, hact, hp, hc⟩
  have hroute := (hr 1 _ hact (by decide)).1
  exact agentC.property (hroute.symm.trans hp)

/-- A stream that has ended before it is resumed. -/
theorem resumed_stream_routed :
    ∃ (h : List (Transition PairState PairEvent)) (s : PairState),
      pairMachine.Exec h s ∧ Machine.Throughout PairState.Routed h s
        ∧ peerOf s.pairs 7 agentP.val = agentC.val := by
  obtain ⟨s₁, s₂, s₃, h₁, h₂, h₃, hs₁, hs₂, hp⟩ : ∃ s₁ s₂ s₃,
      pairMachine.step pairMachine.init (.openStream 7 agentC agentP) = some s₁
      ∧ pairMachine.step s₁ (.finish 0) = some s₂
      ∧ pairMachine.step s₂ (.splicePair 7 agentP agentC) = some s₃
      ∧ s₁.active = (∅ : GoMap ℕ ActiveStream).set 0 ⟨7, agentC, agentP⟩
      ∧ s₂.active = s₁.active.del 0 ∧ peerOf s₃.pairs 7 agentP.val = agentC.val :=
    ⟨_, _, _, rfl, rfl, rfl, rfl, rfl, rfl⟩
  have hx := ((Machine.Exec.nil.snoc h₁).snoc h₂).snoc h₃
  refine ⟨_, _, hx, (routed_iff_keeps hx).1.mpr ?_, hp⟩
  have hone : ∀ {j : ℕ} {b : ActiveStream}, s₁.active.get j = some b → j = 0 := by
    intro j b hj
    rw [hs₁, GoMap.get_set] at hj
    split_ifs at hj with h
    · exact h
    · cases hj
  intro t ht
  simp only [List.nil_append, List.cons_append, List.mem_cons, List.not_mem_nil, or_false] at ht
  rcases ht with rfl | rfl | rfl
  · trivial
  · exact fun _ _ _ j b hj _ => hone hj
  · intro _ i a hi
    rw [hs₂] at hi
    obtain ⟨hi, hne⟩ := GoMap.of_get_del hi
    exact absurd (hone hi) hne
