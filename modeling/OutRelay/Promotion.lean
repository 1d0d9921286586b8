import OutRelay.PairTable
import OutRelay.Policy

/-!
# Promotion to a direct path

A rule can say of a stream that its agents must not leave the relay for a
direct path (`FORBIDDEN`) or that they have to (`REQUIRED`). The handler of an
`OPEN_STREAM` combines what the two sides' rules say, and acts on the result in
one place: where it is `REQUIRED` it starts `enforceRequiredPromotion`, which
closes the stream after `RequiredPromotionTimeout` unless a tick finds the
stream's id in the table of migrated streams.

What the agents do to leave the relay arrives elsewhere, on the control streams
of any connected agents.

* `CANDIDATE_OFFER` and `CANDIDATE_ANSWER` are handed to whichever agent the
  pair table has at the other end of the id (`forwardCandidate`).
* `MIGRATE_TO_P2P` enters the id in the table of migrated streams
  (`handleMigrateToP2P`), whoever sends it and whether or not a stream has the
  id. The entry stays for `MigrationTTL`, and outlives the stream.

The machine below runs these handlers with the relay's connections and its pair
table. Neither of them asks for the mode, and the table of migrated streams has
no trace of who sent the frame. So an enforcement is disarmed by the promotion of
its own stream only where no other agent has sent a frame under its id and the
id had no entry left when the stream was opened (`disarmed_by_own_promotion`);
and a `FORBIDDEN` stream stays on the relay exactly where its agents do not try
to leave (`forbidden_stays_iff`).

`noted`, `delivered` and the last four fields of `Enforcement` are not in the
source: they record the frames taken and the stream an enforcement is for.
-/

/-! ## The table of migrated streams -/

/-- `MigrationTTL`, in nanoseconds. -/
def migrationTTL : Time := 60000000000

/-- `migratedStream`, without the id, which is its key. -/
structure MigratedStream where
  consumerURI : GoString
  providerURI : GoString
  migratedAt : Time
  deriving DecidableEq

/-- The test of `Lookup` and `gcLocked`. -/
def MigratedStream.expired (e : MigratedStream) (now : Time) : Bool :=
  migrationTTL ≤ now - e.migratedAt

theorem MigratedStream.expired_eq_false {e : MigratedStream} {now : Time} :
    e.expired now = false ↔ now < e.migratedAt + migrationTTL := by
  unfold expired
  rw [decide_eq_false_iff_not, not_le, sub_lt_iff_lt_add']

/-- `migratedLRU`. -/
abbrev MigratedLRU := GoMap UInt64 MigratedStream

namespace MigratedLRU

/-- `gcLocked`, ranging over the table in the order `order`. -/
def gcLocked (l : MigratedLRU) (now : Time) (order : List (UInt64 × MigratedStream)) :
    MigratedLRU :=
  l.delAll ((order.filter (fun e => e.snd.expired now)).map Prod.fst)

/-- `Note`. It reads the clock twice: for the entry, and for the sweep. -/
def note (l : MigratedLRU) (id : UInt64) (pair : StreamPair) (now now' : Time)
    (order : List (UInt64 × MigratedStream)) : MigratedLRU :=
  gcLocked (l.set id ⟨pair.consumerURI, pair.providerURI, now⟩) now' order

/-- `Lookup`, which drops the entry it finds expired. -/
def lookup (l : MigratedLRU) (id : UInt64) (now : Time) : Option MigratedStream × MigratedLRU :=
  match l.get id with
  | none => (none, l)
  | some e => if e.expired now then (none, l.del id) else (some e, l)

/-- `Discard`. -/
def discard (l : MigratedLRU) (id : UInt64) : MigratedLRU := l.del id

variable {l : MigratedLRU} {id k : UInt64} {now now' : Time} {e : MigratedStream}
  {order : List (UInt64 × MigratedStream)} {pair : StreamPair}

/-- What a `Note` leaves: the entries that have not expired, the new one among
them. -/
theorem get_note
    (ho : (l.set id ⟨pair.consumerURI, pair.providerURI, now⟩).RangeOrder order) :
    (note l id pair now now' order).get k = some e
      ↔ (if k = id then e = ⟨pair.consumerURI, pair.providerURI, now⟩ else l.get k = some e)
        ∧ e.expired now' = false := by
  unfold note gcLocked
  rw [ho.get_delAll_filter (fun v => v.expired now'), Option.filter_eq_some_iff, GoMap.get_set]
  simp only [Bool.not_eq_true']
  split_ifs with hk
  · rw [Option.some.injEq]
    exact and_congr_left' eq_comm
  · rfl

/-- `Lookup` answers with an entry that has not expired. -/
theorem lookup_fst :
    (lookup l id now).fst = some e ↔ l.get id = some e ∧ e.expired now = false := by
  unfold lookup
  cases hget : l.get id with
  | none => simp
  | some e' =>
    dsimp only
    by_cases hexp : e'.expired now = true
    · rw [if_pos hexp]
      constructor
      · intro h
        cases h
      · rintro ⟨h, hlive⟩
        cases h
        rw [hexp] at hlive
        cases hlive
    · rw [if_neg hexp]
      constructor
      · intro h
        cases h
        exact ⟨rfl, Bool.eq_false_iff.mpr hexp⟩
      · exact fun h => h.1

/-- `Lookup` adds nothing. -/
theorem of_get_lookup (h : (lookup l id now).snd.get k = some e) : l.get k = some e := by
  unfold lookup at h
  split at h
  · exact h
  · split_ifs at h
    · exact (GoMap.of_get_del h).1
    · exact h

end MigratedLRU

/-! ## The handlers -/

/-- `RequiredPromotionTimeout` is a variable of the package. -/
structure PromotionConfig extends RelayConfig where
  requiredPromotionTimeout : Time

/-- Where an `enforceRequiredPromotion` is: in its loop, or returned – because a
tick found an entry, because its context was done, or after closing the stream
at the deadline. -/
inductive EnforcePC
  | armed
  | promoted
  | cancelled
  | timedOut
  deriving DecidableEq

/-- An `enforceRequiredPromotion`, started at `armedAt` for a stream between two
agents, when `since` frames of `MIGRATE_TO_P2P` had been taken. -/
structure Enforcement where
  streamID : UInt64
  pc : EnforcePC
  armedAt : Time
  consumer : AgentURI
  provider : AgentURI
  since : ℕ

/-- A `handleMigrateToRelay` after its `Lookup`: whether it found an entry. -/
structure Demotion where
  streamID : UInt64
  prior : Bool

/-- A `MIGRATE_TO_P2P` frame, with its sender. -/
structure Promotion where
  uri : GoString
  streamID : UInt64
  deriving DecidableEq

inductive CandidateKind
  | offer
  | answer
  deriving DecidableEq

/-- A candidate frame written to the control stream of connection `ac`. -/
structure Delivery where
  kind : CandidateKind
  streamID : UInt64
  src : GoString
  dst : GoString
  ac : ℕ
  deriving DecidableEq

/-- The relay's connections, its pair table with the active streams and the P2P
modes they were opened with, and its table of migrated streams. -/
structure PromotionState where
  relay : RelayState
  table : PairState
  modes : GoMap ℕ P2PMode
  migrated : MigratedLRU
  clock : Time
  enforcements : List Enforcement
  demotions : List Demotion
  noted : List Promotion
  delivered : List Delivery

/-- A step of one goroutine. -/
inductive PromotionEvent
  | relay (e : RelayEvent)
  | openStream (caller : ℕ) (sid : UInt64) (provider : AgentURI) (callerMode calleeMode : P2PMode)
      (now : Time)
  | splicePair (sid : UInt64) (self peer : AgentURI)
  | finish (i : ℕ)
  | candidate (i : ℕ) (kind : CandidateKind) (sid : UInt64) (written : Bool)
  | migrateToP2P (i : ℕ) (sid : UInt64) (now now' : Time)
      (order : List (UInt64 × MigratedStream))
  | migrateToRelay (sid : UInt64) (now : Time)
  | rematched (k : ℕ)
  | tick (k : ℕ) (now : Time)
  | ctxDone (k : ℕ)
  | deadline (k : ℕ) (now : Time)

/-- The pair that `handleMigrateToP2P` records: the row of the id, with the
sender in the first place that is empty. -/
def migratedPair (row : Option StreamPair) (uri : GoString) : StreamPair :=
  let pair := row.getD ⟨[], []⟩
  if pair.consumerURI = [] then { pair with consumerURI := uri }
  else if pair.providerURI = [] then { pair with providerURI := uri }
  else pair

namespace PromotionState

/-- The part of `handleConsumerStream` that records the pair and, where the
combined mode is `REQUIRED`, starts the enforcement. Without a policy both modes
are `ALLOWED`. -/
def openStream (s : PromotionState) (caller : AgentURI) (sid : UInt64) (provider : AgentURI)
    (mode : P2PMode) (now : Time) : PromotionState :=
  match recordPair s.table.pairs sid ⟨caller.val, provider.val⟩ with
  | (false, _) => { s with clock := now }
  | (true, pairs) =>
    { s with
      table := s.table.start pairs ⟨sid, caller, provider⟩
      modes := s.modes.set s.table.started mode
      clock := now
      enforcements :=
        if mode = .required then
          s.enforcements ++ [⟨sid, .armed, now, caller, provider, s.noted.length⟩]
        else s.enforcements }

/-- `forwardCandidate`; `written` says whether the write succeeds. -/
def forwardCandidate (s : PromotionState) (src : AgentURI) (kind : CandidateKind) (sid : UInt64)
    (written : Bool) : PromotionState :=
  let peerURI := peerOf s.table.pairs sid src.val
  if peerURI = [] then s
  else match s.relay.lookupAgent peerURI with
    | none => s
    | some ac =>
      if written then { s with delivered := s.delivered ++ [⟨kind, sid, src.val, peerURI, ac⟩] }
      else s

/-- `handleMigrateToP2P`. -/
def handleMigrateToP2P (s : PromotionState) (ac : AgentURI) (sid : UInt64) (now now' : Time)
    (order : List (UInt64 × MigratedStream)) : PromotionState :=
  { s with
    migrated := s.migrated.note sid (migratedPair (s.table.pairs.get sid) ac.val) now now' order
    clock := now'
    noted := s.noted ++ [⟨ac.val, sid⟩] }

/-- Set where enforcement `k` is. -/
def setPC (s : PromotionState) (k : ℕ) (pc : EnforcePC) : PromotionState :=
  { s with enforcements := s.enforcements.modify k (fun x => { x with pc := pc }) }

/-- `order` is one in which the sweep of a `Note` may range over the table. -/
def NoteOrder (s : PromotionState) (ac : AgentURI) (sid : UInt64) (now : Time)
    (order : List (UInt64 × MigratedStream)) : Prop :=
  (s.migrated.set sid
    ⟨(migratedPair (s.table.pairs.get sid) ac.val).consumerURI,
      (migratedPair (s.table.pairs.get sid) ac.val).providerURI, now⟩).RangeOrder order

instance (s : PromotionState) (ac : AgentURI) (sid : UInt64) (now : Time)
    (order : List (UInt64 × MigratedStream)) : Decidable (s.NoteOrder ac sid now order) :=
  inferInstanceAs (Decidable (GoMap.RangeOrder _ _))

def step (cfg : PromotionConfig) (s : PromotionState) : PromotionEvent → Option PromotionState
  | .relay e => (s.relay.step cfg.toRelayConfig e).map (fun relay => { s with relay := relay })
  | .openStream caller sid provider callerMode calleeMode now =>
    if now < s.clock then none
    else (s.relay.loopAgent caller).map (fun uri =>
      s.openStream uri sid provider (combineP2PModes callerMode calleeMode) now)
  | .splicePair sid self peer =>
    (s.table.step (.splicePair sid self peer)).map (fun table => { s with table := table })
  | .finish i => (s.table.step (.finish i)).map (fun table => { s with table := table })
  | .candidate i kind sid written =>
    (s.relay.loopAgent i).map (fun src => s.forwardCandidate src kind sid written)
  | .migrateToP2P i sid now now' order =>
    (s.relay.loopAgent i).bind (fun ac =>
      if s.clock ≤ now ∧ now ≤ now' ∧ s.NoteOrder ac sid now order then
        some (s.handleMigrateToP2P ac sid now now' order)
      else none)
  | .migrateToRelay sid now =>
    if now < s.clock then none
    else
      let (prior, migrated) := s.migrated.lookup sid now
      some { s with
        migrated := migrated
        clock := now
        demotions := s.demotions ++ [⟨sid, prior.isSome⟩] }
  | .rematched k =>
    (s.demotions[k]?).map (fun d =>
      if d.prior then { s with migrated := s.migrated.discard d.streamID } else s)
  | .tick k now =>
    (s.enforcements[k]?).bind (fun x =>
      if x.pc ≠ .armed ∨ now < s.clock then none
      else match s.migrated.lookup x.streamID now with
        | (some _, migrated) => some { s.setPC k .promoted with migrated := migrated, clock := now }
        | (none, migrated) => some { s with migrated := migrated, clock := now })
  -- the handler has returned, or the caller's connection has ended
  | .ctxDone k =>
    (s.enforcements[k]?).bind (fun x => if x.pc ≠ .armed then none else some (s.setPC k .cancelled))
  | .deadline k now =>
    (s.enforcements[k]?).bind (fun x =>
      if x.pc ≠ .armed ∨ now < s.clock ∨ now < x.armedAt + cfg.requiredPromotionTimeout then none
      else some { s.setPC k .timedOut with clock := now })

end PromotionState

/-- The relay from its start. -/
def promotionMachine (cfg : PromotionConfig) (idleTTL pendingTTL start : Time) :
    Machine PromotionState PromotionEvent where
  init :=
    { relay := (relayMachine cfg.toRelayConfig idleTTL pendingTTL start).init
      table := pairMachine.init, modes := ∅, migrated := ∅, clock := start, enforcements := [],
      demotions := [], noted := [], delivered := [] }
  step := PromotionState.step cfg

namespace PromotionState

variable {cfg : PromotionConfig} {s s' : PromotionState} {e : PromotionEvent} {x : Enforcement}

/-! ## What a step does -/

/-- **The steps, as a relation.** -/
inductive Acts (cfg : PromotionConfig) (s : PromotionState) :
    PromotionEvent → PromotionState → Prop
  | relay {e : RelayEvent} {relay : RelayState}
      (hrelay : s.relay.step cfg.toRelayConfig e = some relay) :
      Acts cfg s (.relay e) { s with relay := relay }
  | openStream {caller : ℕ} {sid : UInt64} {provider uri : AgentURI}
      {callerMode calleeMode : P2PMode} {now : Time}
      (huri : s.relay.loopAgent caller = some uri) (hnow : s.clock ≤ now) :
      Acts cfg s (.openStream caller sid provider callerMode calleeMode now)
        (s.openStream uri sid provider (combineP2PModes callerMode calleeMode) now)
  | splicePair {sid : UInt64} {self peer : AgentURI} {table : PairState}
      (htable : s.table.step (.splicePair sid self peer) = some table) :
      Acts cfg s (.splicePair sid self peer) { s with table := table }
  | finish {i : ℕ} {table : PairState} (htable : s.table.step (.finish i) = some table) :
      Acts cfg s (.finish i) { s with table := table }
  | candidate {i : ℕ} {kind : CandidateKind} {sid : UInt64} {written : Bool} {src : AgentURI}
      (hsrc : s.relay.loopAgent i = some src) :
      Acts cfg s (.candidate i kind sid written) (s.forwardCandidate src kind sid written)
  | migrateToP2P {i : ℕ} {sid : UInt64} {now now' : Time}
      {order : List (UInt64 × MigratedStream)} {ac : AgentURI}
      (hac : s.relay.loopAgent i = some ac) (hnow : s.clock ≤ now) (hnow' : now ≤ now')
      (horder : s.NoteOrder ac sid now order) :
      Acts cfg s (.migrateToP2P i sid now now' order) (s.handleMigrateToP2P ac sid now now' order)
  | migrateToRelay {sid : UInt64} {now : Time} (hnow : s.clock ≤ now) :
      Acts cfg s (.migrateToRelay sid now) { s with
        migrated := (s.migrated.lookup sid now).snd
        clock := now
        demotions := s.demotions ++ [⟨sid, (s.migrated.lookup sid now).fst.isSome⟩] }
  | rematched {k : ℕ} {d : Demotion} (hd : s.demotions[k]? = some d) (hprior : d.prior = true) :
      Acts cfg s (.rematched k) { s with migrated := s.migrated.discard d.streamID }
  | rematchedNone {k : ℕ} {d : Demotion} (hd : s.demotions[k]? = some d)
      (hprior : ¬ d.prior = true) : Acts cfg s (.rematched k) s
  | found {k : ℕ} {now : Time} {x : Enforcement} {e : MigratedStream}
      (hx : s.enforcements[k]? = some x) (harmed : x.pc = .armed) (hnow : s.clock ≤ now)
      (hfound : (s.migrated.lookup x.streamID now).fst = some e) :
      Acts cfg s (.tick k now) { s.setPC k .promoted with
        migrated := (s.migrated.lookup x.streamID now).snd, clock := now }
  | missed {k : ℕ} {now : Time} {x : Enforcement} (hx : s.enforcements[k]? = some x)
      (harmed : x.pc = .armed) (hnow : s.clock ≤ now)
      (hmissed : (s.migrated.lookup x.streamID now).fst = none) :
      Acts cfg s (.tick k now) { s with
        migrated := (s.migrated.lookup x.streamID now).snd, clock := now }
  | ctxDone {k : ℕ} {x : Enforcement} (hx : s.enforcements[k]? = some x)
      (harmed : x.pc = .armed) : Acts cfg s (.ctxDone k) (s.setPC k .cancelled)
  | deadline {k : ℕ} {now : Time} {x : Enforcement} (hx : s.enforcements[k]? = some x)
      (harmed : x.pc = .armed) (hnow : s.clock ≤ now) :
      Acts cfg s (.deadline k now) { s.setPC k .timedOut with clock := now }

theorem acts_of_step (hstep : s.step cfg e = some s') : s.Acts cfg e s' := by
  cases e with
  | relay re =>
    obtain ⟨relay, hrelay, rfl⟩ := Option.map_eq_some_iff.mp hstep
    exact .relay hrelay
  | openStream caller sid provider callerMode calleeMode now =>
    simp only [step] at hstep
    split_ifs at hstep with hnow
    obtain ⟨uri, huri, rfl⟩ := Option.map_eq_some_iff.mp hstep
    exact .openStream huri (not_lt.mp hnow)
  | splicePair sid self peer =>
    cases hstep
    exact .splicePair rfl
  | finish i =>
    obtain ⟨table, htable, rfl⟩ := Option.map_eq_some_iff.mp hstep
    exact .finish htable
  | candidate i kind sid written =>
    obtain ⟨src, hsrc, rfl⟩ := Option.map_eq_some_iff.mp hstep
    exact .candidate hsrc
  | migrateToP2P i sid now now' order =>
    obtain ⟨ac, hac, hstep⟩ := Option.bind_eq_some_iff.mp hstep
    split_ifs at hstep with hguard
    cases hstep
    exact .migrateToP2P hac hguard.1 hguard.2.1 hguard.2.2
  | migrateToRelay sid now =>
    simp only [step] at hstep
    split_ifs at hstep with hnow
    cases hstep
    exact .migrateToRelay (not_lt.mp hnow)
  | rematched k =>
    obtain ⟨d, hd, rfl⟩ := Option.map_eq_some_iff.mp hstep
    split_ifs with hprior
    · exact .rematched hd hprior
    · exact .rematchedNone hd hprior
  | tick k now =>
    obtain ⟨x, hx, hstep⟩ := Option.bind_eq_some_iff.mp hstep
    split_ifs at hstep with hguard
    obtain ⟨harmed, hnow⟩ := not_or.mp hguard
    split at hstep
    case h_1 e migrated hlookup =>
      have hsnd : (s.migrated.lookup x.streamID now).snd = migrated := congrArg Prod.snd hlookup
      cases hstep
      rw [← hsnd]
      exact .found hx (not_not.mp harmed) (not_lt.mp hnow) (congrArg Prod.fst hlookup)
    case h_2 migrated hlookup =>
      have hsnd : (s.migrated.lookup x.streamID now).snd = migrated := congrArg Prod.snd hlookup
      cases hstep
      rw [← hsnd]
      exact .missed hx (not_not.mp harmed) (not_lt.mp hnow) (congrArg Prod.fst hlookup)
  | ctxDone k =>
    obtain ⟨x, hx, hstep⟩ := Option.bind_eq_some_iff.mp hstep
    split_ifs at hstep with harmed
    cases hstep
    exact .ctxDone hx (not_not.mp harmed)
  | deadline k now =>
    obtain ⟨x, hx, hstep⟩ := Option.bind_eq_some_iff.mp hstep
    split_ifs at hstep with hguard
    obtain ⟨harmed, hnow⟩ := not_or.mp hguard
    cases hstep
    exact .deadline hx (not_not.mp harmed) (not_lt.mp (not_or.mp hnow).1)

/-- A candidate frame changes the log of deliveries only. -/
theorem forwardCandidate_eq (s : PromotionState) (src : AgentURI) (kind : CandidateKind)
    (sid : UInt64) (written : Bool) :
    ∃ delivered, s.forwardCandidate src kind sid written = { s with delivered := delivered } := by
  dsimp only [forwardCandidate]
  split_ifs
  · exact ⟨_, rfl⟩
  · split <;> exact ⟨_, rfl⟩
  · split <;> exact ⟨_, rfl⟩

/-! ## Enforcement -/

/-- **One of the stream's own agents** has sent `MIGRATE_TO_P2P` for its id since
the stream was opened. -/
def Own (s : PromotionState) (x : Enforcement) : Prop :=
  ∃ k, x.since ≤ k ∧ At s.noted k (fun n =>
    n.streamID = x.streamID ∧ (n.uri = x.consumer.val ∨ n.uri = x.provider.val))

/-- The table has an entry under the id that a `Lookup` would answer with. -/
def Migrated (s : PromotionState) (sid : UInt64) : Prop :=
  ∃ e, s.migrated.get sid = some e ∧ e.expired s.clock = false

/-- **Every enforcement that an entry has disarmed** was disarmed after one of
its own agents had sent `MIGRATE_TO_P2P`. -/
def DisarmedByOwn (s : PromotionState) : Prop :=
  ∀ (k : ℕ) (x : Enforcement), s.enforcements[k]? = some x → x.pc = .promoted → s.Own x

/-- An entry that the next tick of an armed enforcement would find is there
after its own agents have sent `MIGRATE_TO_P2P`. -/
def ArmedUntilOwn (s : PromotionState) : Prop :=
  ∀ (k : ℕ) (x : Enforcement), s.enforcements[k]? = some x → x.pc = .armed →
    s.Migrated x.streamID → s.Own x

/-- **The step concerns the agents of enforced streams only.** A
`MIGRATE_TO_P2P` under the id of an enforced stream comes from one of its
agents, unless one has sent it already, and a `REQUIRED` stream is opened under
an id without a live entry. The first says nothing of a frame whose own entry
the sweep of the same `Note` finds expired. -/
def PromotesOwn (s : PromotionState) : PromotionEvent → Prop
  | .openStream caller sid provider callerMode calleeMode now =>
    ∀ uri, s.relay.loopAgent caller = some uri →
      combineP2PModes callerMode calleeMode = .required →
      (sid ≠ 0 → ∀ p, s.table.pairs.get sid = some p → p = ⟨uri.val, provider.val⟩) →
      ∀ e, s.migrated.get sid = some e → e.migratedAt + migrationTTL ≤ now
  | .migrateToP2P i sid now now' _ =>
    ∀ uri, s.relay.loopAgent i = some uri → now' < now + migrationTTL →
      ∀ (k : ℕ) (x : Enforcement), s.enforcements[k]? = some x → x.pc = .armed →
        x.streamID = sid → uri.val = x.consumer.val ∨ uri.val = x.provider.val ∨ s.Own x
  | _ => True

/-- The invariant of these runs. -/
structure OwnInv (s : PromotionState) : Prop where
  disarmed : s.DisarmedByOwn
  armed : s.ArmedUntilOwn
  since : ∀ (k : ℕ) (x : Enforcement), s.enforcements[k]? = some x → x.since ≤ s.noted.length

/-- **A step without a frame or a new enforcement**: entries are only dropped,
and an enforcement that returns early does so on an entry. -/
structure Quiet (s s' : PromotionState) : Prop where
  noted : s'.noted = s.noted
  migrated : ∀ k e, s'.migrated.get k = some e → s.migrated.get k = some e
  clock : s.clock ≤ s'.clock
  enforcements : ∀ (k : ℕ) (x' : Enforcement), s'.enforcements[k]? = some x' →
    ∃ x, s.enforcements[k]? = some x ∧ x' = { x with pc := x'.pc }
      ∧ (x'.pc = .armed → x.pc = .armed)
      ∧ (x'.pc = .promoted → x.pc = .promoted ∨ (x.pc = .armed ∧ s.Migrated x.streamID))

theorem expired_mono {e : MigratedStream} {now now' : Time} (hle : now ≤ now')
    (h : e.expired now' = false) : e.expired now = false := by
  rw [MigratedStream.expired_eq_false] at h ⊢
  exact hle.trans_lt h

/-- **A quiet step keeps the invariant.** -/
theorem OwnInv.quiet (I : OwnInv s) (hq : Quiet s s') : OwnInv s' := by
  have hown : ∀ {x x' : Enforcement}, x' = { x with pc := x'.pc } → s.Own x → s'.Own x' := by
    intro x x' hx' ho
    rw [hx']
    unfold Own
    rw [hq.noted]
    exact ho
  have hmig : ∀ {sid}, s'.Migrated sid → s.Migrated sid := by
    rintro sid ⟨e, he, hlive⟩
    exact ⟨e, hq.migrated _ _ he, expired_mono hq.clock hlive⟩
  refine ⟨fun k x' hk hpc => ?_, fun k x' hk hpc hm => ?_, fun k x' hk => ?_⟩
  · obtain ⟨x, hx, hx', -, hprom⟩ := hq.enforcements k x' hk
    rcases hprom hpc with h | ⟨harmed, hm⟩
    · exact hown hx' (I.disarmed k x hx h)
    · exact hown hx' (I.armed k x hx harmed hm)
  · obtain ⟨x, hx, hx', harm, -⟩ := hq.enforcements k x' hk
    have hsid : x'.streamID = x.streamID := by rw [hx']
    exact hown hx' (I.armed k x hx (harm hpc) (hsid ▸ hmig hm))
  · obtain ⟨x, hx, hx', -, -⟩ := hq.enforcements k x' hk
    rw [hx', hq.noted]
    exact I.since k x hx

theorem Quiet.of_eq (hnoted : s'.noted = s.noted) (henf : s'.enforcements = s.enforcements)
    (hmig : ∀ k e, s'.migrated.get k = some e → s.migrated.get k = some e)
    (hclock : s.clock ≤ s'.clock) : Quiet s s' := by
  refine ⟨hnoted, hmig, hclock, fun k x' hk => ?_⟩
  rw [henf] at hk
  exact ⟨x', hk, rfl, fun h => h, Or.inl⟩

/-- An enforcement that returns. -/
theorem Quiet.setPC {k : ℕ} {pc : EnforcePC} {migrated : MigratedLRU} {now : Time}
    (hk : s.enforcements[k]? = some x) (harmed : x.pc = .armed) (hpc : pc ≠ .armed)
    (hprom : pc = .promoted → s.Migrated x.streamID)
    (hmig : ∀ k e, migrated.get k = some e → s.migrated.get k = some e) (hclock : s.clock ≤ now) :
    Quiet s { s.setPC k pc with migrated := migrated, clock := now } := by
  refine ⟨rfl, hmig, hclock, fun j x' hj => ?_⟩
  have hj' : (s.enforcements.modify k (fun x => { x with pc := pc }))[j]? = some x' := hj
  rw [List.getElem?_modify] at hj'
  by_cases hkj : k = j
  · subst hkj
    simp only [hk, if_true] at hj'
    cases hj'
    exact ⟨x, hk, rfl, fun h => absurd h hpc, fun h => Or.inr ⟨harmed, hprom h⟩⟩
  · simp only [if_neg hkj, id_map'] at hj'
    exact ⟨x', hj', rfl, fun h => h, Or.inl⟩

/-- **What a step can do**: open a stream, take a `MIGRATE_TO_P2P`, or be
quiet. -/
theorem step_cases (hstep : s.step cfg e = some s') :
    (∃ caller sid provider callerMode calleeMode now uri,
      e = .openStream caller sid provider callerMode calleeMode now
        ∧ s.relay.loopAgent caller = some uri ∧ s.clock ≤ now
        ∧ s' = s.openStream uri sid provider (combineP2PModes callerMode calleeMode) now)
    ∨ (∃ i sid now now' order uri, e = .migrateToP2P i sid now now' order
        ∧ s.relay.loopAgent i = some uri ∧ s.clock ≤ now ∧ now ≤ now'
        ∧ s.NoteOrder uri sid now order ∧ s' = s.handleMigrateToP2P uri sid now now' order)
    ∨ (s.PromotesOwn e ∧ Quiet s s') := by
  cases acts_of_step hstep with
  | openStream huri hnow => exact Or.inl ⟨_, _, _, _, _, _, _, rfl, huri, hnow, rfl⟩
  | migrateToP2P hac hnow hnow' horder =>
    exact Or.inr (Or.inl ⟨_, _, _, _, _, _, rfl, hac, hnow, hnow', horder, rfl⟩)
  | relay | splicePair | finish | rematchedNone =>
    exact Or.inr (Or.inr ⟨trivial, Quiet.of_eq rfl rfl (fun _ _ h => h) le_rfl⟩)
  | @candidate i kind sid written src hsrc =>
    obtain ⟨delivered, heq⟩ := s.forwardCandidate_eq src kind sid written
    rw [heq]
    exact Or.inr (Or.inr ⟨trivial, Quiet.of_eq rfl rfl (fun _ _ h => h) le_rfl⟩)
  | migrateToRelay hnow =>
    refine Or.inr (Or.inr ⟨trivial, Quiet.of_eq rfl rfl (fun _ _ h => ?_) hnow⟩)
    exact MigratedLRU.of_get_lookup h
  | rematched hd hprior =>
    refine Or.inr (Or.inr ⟨trivial, Quiet.of_eq rfl rfl (fun _ _ h => ?_) le_rfl⟩)
    exact (GoMap.of_get_del h).1
  | missed hx harmed hnow hmissed =>
    refine Or.inr (Or.inr ⟨trivial, Quiet.of_eq rfl rfl (fun _ _ h => ?_) hnow⟩)
    exact MigratedLRU.of_get_lookup h
  | found hx harmed hnow hfound =>
    obtain ⟨hget, hlive⟩ := MigratedLRU.lookup_fst.mp hfound
    exact Or.inr (Or.inr ⟨trivial, Quiet.setPC hx harmed EnforcePC.noConfusion
      (fun _ => ⟨_, hget, expired_mono hnow hlive⟩) (fun _ _ => MigratedLRU.of_get_lookup) hnow⟩)
  | ctxDone hx harmed =>
    exact Or.inr (Or.inr ⟨trivial, Quiet.setPC hx harmed EnforcePC.noConfusion
      EnforcePC.noConfusion (fun _ _ h => h) le_rfl⟩)
  | deadline hx harmed hnow =>
    exact Or.inr (Or.inr ⟨trivial, Quiet.setPC hx harmed EnforcePC.noConfusion
      EnforcePC.noConfusion (fun _ _ h => h) hnow⟩)

section Note

variable {i : ℕ} {sid : UInt64} {now now' : Time} {order : List (UInt64 × MigratedStream)}
  {uri : AgentURI}

/-- What is live after a `Note`: the entry it wrote, where the two readings of
the clock are within the TTL, and what was live before. -/
theorem migrated_note {k : UInt64} (ho : s.NoteOrder uri sid now order) (hclock : s.clock ≤ now') :
    (k = sid → now' < now + migrationTTL → (s.handleMigrateToP2P uri sid now now' order).Migrated k)
      ∧ ((s.handleMigrateToP2P uri sid now now' order).Migrated k →
        (k = sid ∧ now' < now + migrationTTL) ∨ s.Migrated k) := by
  constructor
  · intro hk hnow
    refine ⟨_, (MigratedLRU.get_note ho).mpr ⟨(if_pos hk).mpr rfl, ?_⟩, ?_⟩
    · exact MigratedStream.expired_eq_false.mpr hnow
    · exact MigratedStream.expired_eq_false.mpr hnow
  · rintro ⟨e, he, hexp⟩
    obtain ⟨hget, -⟩ := (MigratedLRU.get_note ho).mp he
    split_ifs at hget with hk
    · subst hget
      exact Or.inl ⟨hk, MigratedStream.expired_eq_false.mp hexp⟩
    · exact Or.inr ⟨e, hget, expired_mono hclock hexp⟩

/-- Who has promoted a stream after a `Note`. -/
theorem own_note (hsince : x.since ≤ s.noted.length) :
    (s.handleMigrateToP2P uri sid now now' order).Own x
      ↔ s.Own x ∨ (sid = x.streamID ∧ (uri.val = x.consumer.val ∨ uri.val = x.provider.val)) := by
  constructor
  · rintro ⟨k, hk, n, hn, hown⟩
    rcases of_getElem?_concat hn with hn | ⟨-, rfl⟩
    · exact Or.inl ⟨k, hk, n, hn, hown⟩
    · exact Or.inr hown
  · rintro (⟨k, hk, hat⟩ | hown)
    · exact ⟨k, hk, hat.snoc _⟩
    · exact ⟨s.noted.length, hsince, at_length hown⟩

/-- **A frame of a stream's own agent keeps the invariant.** -/
theorem OwnInv.note (I : OwnInv s) (huri : s.relay.loopAgent i = some uri)
    (hG : s.PromotesOwn (.migrateToP2P i sid now now' order))
    (ho : s.NoteOrder uri sid now order) (hclock : s.clock ≤ now') :
    OwnInv (s.handleMigrateToP2P uri sid now now' order) := by
  refine ⟨fun k x hk hpc => ?_, fun k x hk hpc hm => ?_, fun k x hk => ?_⟩
  · exact (own_note (I.since k x hk)).mpr (Or.inl (I.disarmed k x hk hpc))
  · refine (own_note (I.since k x hk)).mpr ?_
    rcases (migrated_note ho hclock).2 hm with ⟨hsid, hnow⟩ | hm
    · rcases hG uri huri hnow k x hk hpc hsid with h | h | h
      · exact Or.inr ⟨hsid.symm, Or.inl h⟩
      · exact Or.inr ⟨hsid.symm, Or.inr h⟩
      · exact Or.inl h
    · exact Or.inl (I.armed k x hk hpc hm)
  · refine Nat.le_trans (I.since k x hk) ?_
    show _ ≤ (s.noted ++ [_]).length
    rw [List.length_append]
    exact Nat.le_add_right _ _

/-- **A frame of another agent is found by the next tick.** -/
theorem OwnInv.not_armed_note (I : OwnInv s) (huri : s.relay.loopAgent i = some uri)
    (hG : ¬ s.PromotesOwn (.migrateToP2P i sid now now' order))
    (ho : s.NoteOrder uri sid now order) (hclock : s.clock ≤ now') :
    ¬ (s.handleMigrateToP2P uri sid now now' order).ArmedUntilOwn := by
  intro harm
  refine hG fun uri' huri' hnow k x hk hpc hsid => ?_
  cases huri.symm.trans huri'
  have hown := harm k x hk hpc ((migrated_note ho hclock).1 hsid hnow)
  rcases (own_note (I.since k x hk)).mp hown with h | ⟨-, h | h⟩
  · exact Or.inr (Or.inr h)
  · exact Or.inl h
  · exact Or.inr (Or.inl h)

end Note

section Open

variable {sid : UInt64} {provider uri : AgentURI} {mode : P2PMode} {now : Time}

/-- **What an `OPEN_STREAM` leaves**: an enforcement more, where the mode asks
for one and the pair is recorded. -/
theorem openStream_eq (s : PromotionState) (uri : AgentURI) (sid : UInt64) (provider : AgentURI)
    (mode : P2PMode) (now : Time) :
    (s.openStream uri sid provider mode now).noted = s.noted
      ∧ (s.openStream uri sid provider mode now).migrated = s.migrated
      ∧ (s.openStream uri sid provider mode now).clock = now
      ∧ (s.openStream uri sid provider mode now).enforcements
        = if mode = .required
            ∧ (recordPair s.table.pairs sid ⟨uri.val, provider.val⟩).fst = true then
          s.enforcements ++ [⟨sid, .armed, now, uri, provider, s.noted.length⟩]
        else s.enforcements := by
  unfold openStream
  split
  · rename_i hrec
    rw [hrec]
    simp
  · rename_i hrec
    rw [hrec]
    simp

/-- Nobody has promoted a stream that is being opened. -/
theorem not_own_of_since (hsince : x.since = s.noted.length) : ¬ s.Own x := by
  rintro ⟨k, hk, hat⟩
  exact absurd hat.lt (by omega)

/-- **A stream opened under an id without a live entry keeps the invariant.** -/
theorem OwnInv.openStream (I : OwnInv s) (hnow : s.clock ≤ now)
    (hG : mode = .required →
      (sid ≠ 0 → ∀ p, s.table.pairs.get sid = some p → p = ⟨uri.val, provider.val⟩) →
      ∀ e, s.migrated.get sid = some e → e.migratedAt + migrationTTL ≤ now) :
    OwnInv (s.openStream uri sid provider mode now) := by
  obtain ⟨hnoted, hmig, hclock, henf⟩ := openStream_eq s uri sid provider mode now
  split_ifs at henf with harms
  · have hown : ∀ {x}, s.Own x → (s.openStream uri sid provider mode now).Own x := by
      intro x
      unfold Own
      rw [hnoted]
      exact fun h => h
    refine ⟨fun k x hk hpc => ?_, fun k x hk hpc hm => ?_, fun k x hk => ?_⟩
    · rw [henf] at hk
      rcases of_getElem?_concat hk with hk | ⟨-, rfl⟩
      · exact hown (I.disarmed k x hk hpc)
      · cases hpc
    · obtain ⟨e, he, hlive⟩ := hm
      rw [hmig] at he
      rw [hclock] at hlive
      rw [henf] at hk
      rcases of_getElem?_concat hk with hk | ⟨-, rfl⟩
      · exact hown (I.armed k x hk hpc ⟨e, he, expired_mono hnow hlive⟩)
      · have hexp := hG harms.1 (recordPair_fst.mp harms.2) e he
        exact absurd (MigratedStream.expired_eq_false.mp hlive) hexp.not_gt
    · rw [hnoted]
      rw [henf] at hk
      rcases of_getElem?_concat hk with hk | ⟨-, rfl⟩
      · exact I.since k x hk
      · exact Nat.le_refl _
  · refine I.quiet (Quiet.of_eq hnoted henf ?_ (hclock.symm ▸ hnow))
    rw [hmig]
    exact fun _ _ h => h

/-- **A stream opened under a live entry has its enforcement disarmed by the
next tick.** -/
theorem not_armed_openStream {e : MigratedStream} (hmode : mode = .required)
    (hrec : sid ≠ 0 → ∀ p, s.table.pairs.get sid = some p → p = ⟨uri.val, provider.val⟩)
    (he : s.migrated.get sid = some e) (hlive : now < e.migratedAt + migrationTTL) :
    ¬ (s.openStream uri sid provider mode now).ArmedUntilOwn := by
  obtain ⟨hnoted, hmig, hclock, henf⟩ := openStream_eq s uri sid provider mode now
  rw [if_pos ⟨hmode, recordPair_fst.mpr hrec⟩] at henf
  have hnew : (s.openStream uri sid provider mode now).enforcements[s.enforcements.length]?
      = some ⟨sid, .armed, now, uri, provider, s.noted.length⟩ := by
    rw [henf]
    exact List.getElem?_concat_length
  have hfound : (s.openStream uri sid provider mode now).Migrated sid := by
    refine ⟨e, hmig ▸ he, ?_⟩
    rw [hclock]
    exact MigratedStream.expired_eq_false.mpr hlive
  exact fun harm => not_own_of_since (congrArg List.length hnoted.symm) (harm _ _ hnew rfl hfound)

end Open

/-- **A step of the stream's own agents keeps the invariant.** -/
theorem ownInv_step (I : OwnInv s) (hG : s.PromotesOwn e) (hstep : s.step cfg e = some s') :
    OwnInv s' := by
  rcases step_cases hstep with ⟨caller, sid, provider, cm, pm, now, uri, rfl, huri, hnow, rfl⟩
    | ⟨i, sid, now, now', order, uri, rfl, huri, hnow, hnow', ho, rfl⟩ | ⟨-, hq⟩
  · exact I.openStream hnow (hG uri huri)
  · exact I.note huri hG ho (hnow.trans hnow')
  · exact I.quiet hq

/-- **Any other is answered by the next tick.** -/
theorem not_armed_step (I : OwnInv s) (hG : ¬ s.PromotesOwn e) (hstep : s.step cfg e = some s') :
    ¬ s'.ArmedUntilOwn := by
  rcases step_cases hstep with ⟨caller, sid, provider, cm, pm, now, uri, rfl, huri, hnow, rfl⟩
    | ⟨i, sid, now, now', order, uri, rfl, huri, hnow, hnow', ho, rfl⟩ | ⟨hall, -⟩
  · simp only [PromotesOwn, not_forall] at hG
    obtain ⟨uri', huri', hmode, hrec, e, he, hlive⟩ := hG
    cases huri.symm.trans huri'
    exact not_armed_openStream hmode hrec he (not_le.mp hlive)
  · exact I.not_armed_note huri hG ho (hnow.trans hnow')
  · exact absurd hall hG

theorem ownInv_init {idleTTL pendingTTL start : Time} :
    OwnInv (promotionMachine cfg idleTTL pendingTTL start).init := by
  have hnone : ∀ {k : ℕ} {x : Enforcement},
      (promotionMachine cfg idleTTL pendingTTL start).init.enforcements[k]? ≠ some x := by
    intro k x hk
    cases hk
  exact ⟨fun _ _ hk => absurd hk hnone, fun _ _ hk => absurd hk hnone,
    fun _ _ hk => absurd hk hnone⟩

end PromotionState

/-- **When an enforcement is disarmed by its own stream alone.** In a run whose
steps concern the agents of enforced streams only, every enforcement that has
returned on an entry did so after one of the two agents of its stream had sent
`MIGRATE_TO_P2P` for it. The condition is exact for what the next tick of an
enforcement would do. -/
theorem disarmed_by_own_promotion {cfg : PromotionConfig} {idleTTL pendingTTL start : Time}
    {h : List (Transition PromotionState PromotionEvent)} {s : PromotionState}
    (hx : (promotionMachine cfg idleTTL pendingTTL start).Exec h s) :
    ((∀ t ∈ h, t.pre.PromotesOwn t.ev) → Machine.Throughout PromotionState.DisarmedByOwn h s)
      ∧ (Machine.Throughout (fun s => s.DisarmedByOwn ∧ s.ArmedUntilOwn) h s
        ↔ ∀ t ∈ h, t.pre.PromotesOwn t.ev) := by
  have hiff := hx.throughout_iff (I := PromotionState.OwnInv)
    (P := fun s => s.DisarmedByOwn ∧ s.ArmedUntilOwn) PromotionState.ownInv_init
    (fun I => ⟨I.disarmed, I.armed⟩)
    (fun _ I hG hstep => PromotionState.ownInv_step I hG hstep)
    (fun _ I hG hstep hP => PromotionState.not_armed_step I hG hstep hP.2)
  refine ⟨fun hG => ?_, hiff⟩
  obtain ⟨hlast, hall⟩ := hiff.mpr hG
  exact ⟨hlast.1, fun t ht => (hall t ht).1⟩

/-- An agent that is at neither end of a stream. -/
def agentM : AgentURI := ⟨go "outrelay://acme/agent/m1", by decide⟩

/-- A relay whose policy can ask for promotion. -/
def promotionR1 : PromotionConfig where
  relayID := go "outrelay://acme/relay/r1"
  parse := fun _ => some ⟨go "acme", false⟩
  forward := false
  requiredPromotionTimeout := 10000000000

/-- Both ends of a stream connect. -/
def bothConnect : List PromotionEvent :=
  [.relay (.register agentC), .relay (.track 0), .relay (.register agentP), .relay (.track 1)]

/-- A third agent sends `MIGRATE_TO_P2P` for a `REQUIRED` stream. -/
def thirdAgentPromotes : List PromotionEvent :=
  bothConnect ++ [.relay (.register agentM), .relay (.track 2),
    .openStream 0 7 agentP .required .allowed 1,
    .migrateToP2P 2 7 2 2 [(7, ⟨agentC.val, agentP.val, 2⟩)], .tick 0 250000001]

/-- A `REQUIRED` stream is promoted and ends, and its id is used again. -/
def reopened : List PromotionEvent :=
  bothConnect ++ [.openStream 0 7 agentP .required .allowed 1,
    .migrateToP2P 0 7 2 2 [(7, ⟨agentC.val, agentP.val, 2⟩)], .tick 0 250000001, .finish 0,
    .openStream 0 7 agentP .required .allowed 300000001, .tick 1 550000001]

/-- Neither enforcement sees a frame of its own stream: the first is disarmed by
the frame of a third agent, and the second by the entry of an earlier stream. -/
theorem disarmed_by_stranger_and_by_stale_entry :
    (∃ s, (promotionMachine promotionR1 100 30 0).Reachable s ∧ ¬ s.DisarmedByOwn
      ∧ s.enforcements[0]? = some ⟨7, .promoted, 1, agentC, agentP, 0⟩
      ∧ s.noted = [⟨agentM.val, 7⟩])
    ∧ ∃ s, (promotionMachine promotionR1 100 30 0).Reachable s ∧ ¬ s.DisarmedByOwn
      ∧ s.enforcements[1]? = some ⟨7, .promoted, 300000001, agentC, agentP, 1⟩
      ∧ s.noted = [⟨agentC.val, 7⟩] := by
  constructor
  · obtain ⟨s, hrun, henf, hnoted⟩ : ∃ s, (promotionMachine promotionR1 100 30 0).run
        thirdAgentPromotes (promotionMachine promotionR1 100 30 0).init = some s
        ∧ s.enforcements[0]? = some ⟨7, .promoted, 1, agentC, agentP, 0⟩
        ∧ s.noted = [⟨agentM.val, 7⟩] := ⟨_, rfl, rfl, rfl⟩
    obtain ⟨h, hx, -⟩ := Machine.exec_of_run _ _ hrun
    refine ⟨s, ⟨h, hx⟩, fun hown => ?_, henf, hnoted⟩
    obtain ⟨k, -, n, hn, -, huri⟩ := hown 0 _ henf rfl
    rw [hnoted] at hn
    obtain rfl : n = ⟨agentM.val, 7⟩ := List.mem_singleton.mp (List.mem_of_getElem? hn)
    exact absurd huri (by decide)
  · obtain ⟨s, hrun, henf, hnoted⟩ : ∃ s, (promotionMachine promotionR1 100 30 0).run
        reopened (promotionMachine promotionR1 100 30 0).init = some s
        ∧ s.enforcements[1]? = some ⟨7, .promoted, 300000001, agentC, agentP, 1⟩
        ∧ s.noted = [⟨agentC.val, 7⟩] := ⟨_, rfl, rfl, rfl⟩
    obtain ⟨h, hx, -⟩ := Machine.exec_of_run _ _ hrun
    refine ⟨s, ⟨h, hx⟩, fun hown => ?_, henf, hnoted⟩
    refine PromotionState.not_own_of_since ?_ (hown 1 _ henf rfl)
    rw [hnoted]
    rfl

/-- Connecting takes steps of the relay's connections only. -/
theorem relay_of_bothConnect {h : List (Transition PromotionState PromotionEvent)}
    {t : Transition PromotionState PromotionEvent} (hev : h.map Transition.ev = bothConnect)
    (ht : t ∈ h) : ∃ e, t.ev = .relay e := by
  have hmem := List.mem_map_of_mem (f := Transition.ev) ht
  rw [hev] at hmem
  simp only [bothConnect, List.mem_cons, List.not_mem_nil, or_false] at hmem
  rcases hmem with h | h | h | h
  all_goals exact ⟨_, h⟩

/-- The provider of a stream promotes it. -/
theorem disarmed_by_provider :
    ∃ (h : List (Transition PromotionState PromotionEvent)) (s : PromotionState),
      (promotionMachine promotionR1 100 30 0).Exec h s
        ∧ Machine.Throughout PromotionState.DisarmedByOwn h s
        ∧ s.enforcements = [⟨7, .promoted, 1, agentC, agentP, 0⟩] := by
  obtain ⟨s₁, s₂, s₃, s₄, hrun, h₂, h₃, h₄, hmig, hloop, henf, hlast⟩ : ∃ s₁ s₂ s₃ s₄,
      (promotionMachine promotionR1 100 30 0).run bothConnect
        (promotionMachine promotionR1 100 30 0).init = some s₁
      ∧ (promotionMachine promotionR1 100 30 0).step s₁
        (.openStream 0 7 agentP .required .allowed 1) = some s₂
      ∧ (promotionMachine promotionR1 100 30 0).step s₂
        (.migrateToP2P 1 7 2 2 [(7, ⟨agentC.val, agentP.val, 2⟩)]) = some s₃
      ∧ (promotionMachine promotionR1 100 30 0).step s₃ (.tick 0 250000001) = some s₄
      ∧ s₁.migrated = ∅ ∧ s₂.relay.loopAgent 1 = some agentP
      ∧ s₂.enforcements = [⟨7, .armed, 1, agentC, agentP, 0⟩]
      ∧ s₄.enforcements = [⟨7, .promoted, 1, agentC, agentP, 0⟩] :=
    ⟨_, _, _, _, rfl, rfl, rfl, rfl, rfl, rfl, rfl, rfl⟩
  obtain ⟨h₁, hx₁, hev⟩ := Machine.exec_of_run _ _ hrun
  have hx := ((hx₁.snoc h₂).snoc h₃).snoc h₄
  refine ⟨_, _, hx, (disarmed_by_own_promotion hx).1 fun t ht => ?_, hlast⟩
  simp only [List.mem_append, List.mem_singleton] at ht
  rcases ht with ((ht | rfl) | rfl) | rfl
  · obtain ⟨e, he⟩ := relay_of_bothConnect hev ht
    rw [he]
    trivial
  · intro _ _ _ _ e he
    rw [hmig] at he
    cases he
  · intro uri huri _ k x hk _ _
    cases hloop.symm.trans huri
    rw [henf] at hk
    obtain rfl := List.mem_singleton.mp (List.mem_of_getElem? hk)
    exact Or.inr (Or.inl rfl)
  · trivial

namespace PromotionState

variable {cfg : PromotionConfig} {s s' : PromotionState} {e : PromotionEvent}

/-! ## Streams that must not leave -/

/-- An active stream that was opened with the combined mode `FORBIDDEN`. -/
def Forbidden (s : PromotionState) (a : ActiveStream) : Prop :=
  ∃ i, s.table.active.get i = some a ∧ s.modes.get i = some .forbidden

/-- **The step leaves the forbidden streams on the relay**: it delivers no
candidate frame for one of them from one of its agents to the other, and records
no `MIGRATE_TO_P2P` of one of its agents for it. -/
def StaysOnRelay (t : Transition PromotionState PromotionEvent) : Prop :=
  ∀ a, t.pre.Forbidden a →
    (∀ d ∈ t.post.delivered.drop t.pre.delivered.length, d.streamID = a.sid →
      ¬ StreamPair.Joins ⟨d.src, d.dst⟩ a.x.val a.y.val)
    ∧ ∀ n ∈ t.post.noted.drop t.pre.noted.length, n.streamID = a.sid →
      n.uri ≠ a.x.val ∧ n.uri ≠ a.y.val

/-- **The agents of the forbidden streams abstain.** None sends `MIGRATE_TO_P2P`
for its stream. A candidate frame for it is sent only where the pair table does
not join the two, the other has no connection in the registry, or the write
fails. -/
def Abstains (s : PromotionState) : PromotionEvent → Prop
  | .candidate i _ sid written =>
    ∀ a, s.Forbidden a → a.sid = sid → written = true → ∀ src, s.relay.loopAgent i = some src →
      ∀ dst, StreamPair.Joins ⟨src.val, dst⟩ a.x.val a.y.val →
        (∃ p, s.table.pairs.get sid = some p ∧ p.Joins src.val dst) →
        s.relay.lookupAgent dst = none
  | .migrateToP2P i sid _ _ _ =>
    ∀ a, s.Forbidden a → a.sid = sid → ∀ src, s.relay.loopAgent i = some src →
      src.val ≠ a.x.val ∧ src.val ≠ a.y.val
  | _ => True

/-- What `forwardCandidate` writes. -/
theorem mem_forwardCandidate {src : AgentURI} {kind : CandidateKind} {sid : UInt64}
    {written : Bool} {d : Delivery} :
    d ∈ (s.forwardCandidate src kind sid written).delivered.drop s.delivered.length
      ↔ written = true ∧ peerOf s.table.pairs sid src.val ≠ []
        ∧ ∃ ac, s.relay.lookupAgent (peerOf s.table.pairs sid src.val) = some ac
          ∧ d = ⟨kind, sid, src.val, peerOf s.table.pairs sid src.val, ac⟩ := by
  dsimp only [forwardCandidate]
  split_ifs with hpeer hw
  · simp [hpeer]
  · cases hac : s.relay.lookupAgent (peerOf s.table.pairs sid src.val) with
    | none => simp
    | some ac => simp [hpeer, hw]
  · cases hac : s.relay.lookupAgent (peerOf s.table.pairs sid src.val) with
    | none => simp
    | some ac => simp [hw]

/-- Only `handleMigrateToP2P` records a promotion. -/
theorem noted_step (hstep : s.step cfg e = some s')
    (he : ∀ i sid now now' order, e ≠ .migrateToP2P i sid now now' order) :
    s'.noted = s.noted := by
  rcases step_cases hstep with ⟨_, sid, provider, _, _, now, uri, rfl, -, -, rfl⟩
    | ⟨i, sid, now, now', order, _, rfl, -⟩ | ⟨-, hq⟩
  · exact (openStream_eq s uri sid provider _ now).1
  · exact absurd rfl (he i sid now now' order)
  · exact hq.noted

/-- Only `forwardCandidate` delivers a candidate frame. -/
theorem delivered_step (hstep : s.step cfg e = some s')
    (he : ∀ i kind sid written, e ≠ .candidate i kind sid written) :
    s'.delivered = s.delivered := by
  cases acts_of_step hstep with
  | candidate => exact absurd rfl (he _ _ _ _)
  | openStream =>
    unfold openStream
    split <;> rfl
  | _ => rfl

/-- A step that writes to neither log leaves every stream where it is. -/
theorem staysOnRelay_of_eq (hd : s'.delivered = s.delivered) (hn : s'.noted = s.noted) :
    StaysOnRelay ⟨s, e, s'⟩ := by
  intro a _
  simp [hd, hn]

/-- The other end of a stream has a name. -/
theorem ne_nil_of_joins {a : ActiveStream} {x y : GoString}
    (hj : StreamPair.Joins ⟨x, y⟩ a.x.val a.y.val) : y ≠ [] := by
  rcases hj with h | h
  · cases h
    exact a.y.property
  · cases h
    exact a.x.property

/-- **A candidate frame stays on the relay exactly where it reaches nobody.** -/
theorem staysOnRelay_candidate {i : ℕ} {kind : CandidateKind} {sid : UInt64} {written : Bool}
    (hstep : s.step cfg (.candidate i kind sid written) = some s') :
    StaysOnRelay ⟨s, .candidate i kind sid written, s'⟩
      ↔ s.Abstains (.candidate i kind sid written) := by
  have hnoted := noted_step hstep (fun _ _ _ _ _ => PromotionEvent.noConfusion)
  obtain ⟨src, hsrc, rfl⟩ := Option.map_eq_some_iff.mp hstep
  constructor
  · intro hstay a ha hsid hw src' hsrc' dst hj hrow
    cases hsrc.symm.trans hsrc'
    have hdst := ne_nil_of_joins hj
    have hpeer := (peerOf_eq_iff hdst).mpr hrow
    refine Option.eq_none_iff_forall_ne_some.mpr fun ac hac => ?_
    refine (hstay a ha).1 ⟨kind, sid, src.val, dst, ac⟩ ?_ hsid.symm hj
    refine mem_forwardCandidate.mpr ⟨hw, hpeer.symm ▸ hdst, ac, ?_, ?_⟩
    · rw [hpeer]
      exact hac
    · rw [hpeer]
  · intro habs a ha
    refine ⟨fun d hd hsid hj => ?_, ?_⟩
    · obtain ⟨hw, hne, ac, hac, rfl⟩ := mem_forwardCandidate.mp hd
      have hnone := habs a ha hsid.symm hw src hsrc _ hj ((peerOf_eq_iff hne).mp rfl)
      rw [hnone] at hac
      cases hac
    · dsimp only at hnoted ⊢
      rw [hnoted, List.drop_length]
      intro n hn
      cases hn

/-- **A `MIGRATE_TO_P2P` is recorded whoever sends it.** -/
theorem staysOnRelay_migrateToP2P {i : ℕ} {sid : UInt64} {now now' : Time}
    {order : List (UInt64 × MigratedStream)}
    (hstep : s.step cfg (.migrateToP2P i sid now now' order) = some s') :
    StaysOnRelay ⟨s, .migrateToP2P i sid now now' order, s'⟩
      ↔ s.Abstains (.migrateToP2P i sid now now' order) := by
  have hdel := delivered_step hstep (fun _ _ _ _ => PromotionEvent.noConfusion)
  obtain ⟨src, hsrc, hstep⟩ := Option.bind_eq_some_iff.mp hstep
  split_ifs at hstep
  cases hstep
  have hnew : ∀ n, n ∈ (s.noted ++ [(⟨src.val, sid⟩ : Promotion)]).drop s.noted.length
      ↔ n = ⟨src.val, sid⟩ := by
    intro n
    rw [List.drop_left, List.mem_singleton]
  constructor
  · intro hstay a ha hsid src' hsrc'
    cases hsrc.symm.trans hsrc'
    exact (hstay a ha).2 _ ((hnew _).mpr rfl) hsid.symm
  · intro habs a ha
    refine ⟨?_, fun n hn hsid => ?_⟩
    · dsimp only at hdel ⊢
      rw [hdel, List.drop_length]
      intro d hd
      cases hd
    · obtain rfl := (hnew n).mp hn
      exact habs a ha hsid.symm src hsrc

/-- **Step by step, the condition is exact.** -/
theorem staysOnRelay_iff (hstep : s.step cfg e = some s') :
    StaysOnRelay ⟨s, e, s'⟩ ↔ s.Abstains e := by
  cases e with
  | candidate i kind sid written => exact staysOnRelay_candidate hstep
  | migrateToP2P i sid now now' order => exact staysOnRelay_migrateToP2P hstep
  | _ =>
    refine iff_of_true ?_ trivial
    exact staysOnRelay_of_eq (delivered_step hstep (fun _ _ _ _ => PromotionEvent.noConfusion))
      (noted_step hstep (fun _ _ _ _ _ => PromotionEvent.noConfusion))

end PromotionState

/-- **When forbidden streams stay on the relay**: exactly in the runs in which
their agents do not try to leave. -/
theorem forbidden_stays_iff {cfg : PromotionConfig} {idleTTL pendingTTL start : Time}
    {h : List (Transition PromotionState PromotionEvent)} {s : PromotionState}
    (hx : (promotionMachine cfg idleTTL pendingTTL start).Exec h s) :
    (∀ t ∈ h, PromotionState.StaysOnRelay t) ↔ ∀ t ∈ h, t.pre.Abstains t.ev :=
  forall₂_congr fun _ ht => PromotionState.staysOnRelay_iff (hx.step_of_mem ht).2

/-- The caller's rule forbids promotion. The candidates of the caller reach the
provider, and its promotion is recorded. -/
theorem forbidden_stream_promoted :
    ∃ h s, (promotionMachine promotionR1 100 30 0).Exec h s
      ∧ ¬ (∀ t ∈ h, PromotionState.StaysOnRelay t)
      ∧ s.Forbidden ⟨7, agentC, agentP⟩
      ∧ s.delivered = [⟨.offer, 7, agentC.val, agentP.val, 1⟩] ∧ s.noted = [⟨agentC.val, 7⟩] := by
  obtain ⟨s₁, s₂, s₃, hrun, h₂, h₃, hact, hmode, hact', hmode', hdel, hdel', hnoted⟩ :
      ∃ s₁ s₂ s₃,
      (promotionMachine promotionR1 100 30 0).run
        (bothConnect ++ [.openStream 0 7 agentP .forbidden .allowed 1])
        (promotionMachine promotionR1 100 30 0).init = some s₁
      ∧ (promotionMachine promotionR1 100 30 0).step s₁ (.candidate 0 .offer 7 true) = some s₂
      ∧ (promotionMachine promotionR1 100 30 0).step s₂
        (.migrateToP2P 0 7 2 2 [(7, ⟨agentC.val, agentP.val, 2⟩)]) = some s₃
      ∧ s₁.table.active.get 0 = some ⟨7, agentC, agentP⟩ ∧ s₁.modes.get 0 = some .forbidden
      ∧ s₃.table.active.get 0 = some ⟨7, agentC, agentP⟩ ∧ s₃.modes.get 0 = some .forbidden
      ∧ s₂.delivered.drop s₁.delivered.length = [⟨.offer, 7, agentC.val, agentP.val, 1⟩]
      ∧ s₃.delivered = [⟨.offer, 7, agentC.val, agentP.val, 1⟩]
      ∧ s₃.noted = [⟨agentC.val, 7⟩] :=
    ⟨_, _, _, rfl, rfl, rfl, rfl, rfl, rfl, rfl, rfl, rfl, rfl⟩
  obtain ⟨h, hx, -⟩ := Machine.exec_of_run _ _ hrun
  refine ⟨_, _, (hx.snoc h₂).snoc h₃, fun hall => ?_, ⟨0, hact', hmode'⟩, hdel', hnoted⟩
  have hstay := hall ⟨s₁, .candidate 0 .offer 7 true, s₂⟩ (by simp) _ ⟨0, hact, hmode⟩
  refine hstay.1 ⟨.offer, 7, agentC.val, agentP.val, 1⟩ ?_ rfl (Or.inl rfl)
  dsimp only
  rw [hdel]
  exact List.mem_singleton_self _

/-- Candidates for another stream of the same agents are delivered, and the
forbidden one stays. -/
theorem other_stream_leaves :
    ∃ (h : List (Transition PromotionState PromotionEvent)) (s : PromotionState),
      (promotionMachine promotionR1 100 30 0).Exec h s
        ∧ (∀ t ∈ h, PromotionState.StaysOnRelay t)
        ∧ s.Forbidden ⟨7, agentC, agentP⟩
        ∧ s.delivered = [⟨.offer, 8, agentC.val, agentP.val, 1⟩] := by
  obtain ⟨s₁, s₂, s₃, s₄, hrun, h₂, h₃, h₄, hactive, hmodes, hact, hmode, hdel⟩ :
      ∃ s₁ s₂ s₃ s₄,
      (promotionMachine promotionR1 100 30 0).run bothConnect
        (promotionMachine promotionR1 100 30 0).init = some s₁
      ∧ (promotionMachine promotionR1 100 30 0).step s₁
        (.openStream 0 7 agentP .forbidden .allowed 1) = some s₂
      ∧ (promotionMachine promotionR1 100 30 0).step s₂
        (.openStream 0 8 agentP .allowed .allowed 1) = some s₃
      ∧ (promotionMachine promotionR1 100 30 0).step s₃ (.candidate 0 .offer 8 true) = some s₄
      ∧ s₃.table.active = ((∅ : GoMap ℕ ActiveStream).set 0 ⟨7, agentC, agentP⟩).set 1
        ⟨8, agentC, agentP⟩
      ∧ s₃.modes = ((∅ : GoMap ℕ P2PMode).set 0 .forbidden).set 1 .allowed
      ∧ s₄.table.active.get 0 = some ⟨7, agentC, agentP⟩ ∧ s₄.modes.get 0 = some .forbidden
      ∧ s₄.delivered = [⟨.offer, 8, agentC.val, agentP.val, 1⟩] :=
    ⟨_, _, _, _, rfl, rfl, rfl, rfl, rfl, rfl, rfl, rfl, rfl⟩
  obtain ⟨h₁, hx₁, hev⟩ := Machine.exec_of_run _ _ hrun
  have hx := ((hx₁.snoc h₂).snoc h₃).snoc h₄
  refine ⟨_, _, hx, (forbidden_stays_iff hx).mpr fun t ht => ?_, ⟨0, hact, hmode⟩, hdel⟩
  simp only [List.mem_append, List.mem_singleton] at ht
  rcases ht with ((ht | rfl) | rfl) | rfl
  · obtain ⟨e, he⟩ := relay_of_bothConnect hev ht
    rw [he]
    trivial
  · trivial
  · trivial
  · rintro a ⟨i, hi, hm⟩ hsid
    rw [hactive, GoMap.get_set] at hi
    rw [hmodes, GoMap.get_set] at hm
    split_ifs at hi hm with h₁
    · cases hm
    · rw [GoMap.get_set] at hi
      split_ifs at hi
      · cases hi
        exact absurd hsid (by decide)
      · cases hi
