import OutRelay.Frames
import OutRelay.GoChan
import OutRelay.Registry
import OutRelay.Rendezvous

/-!
# Resuming forward-mode streams

A forward-mode stream has no data stream to splice again: its two agents only
need new allocations on the plane of the relay they fled to. Each sends
`FORWARD_RESUME` on its control connection, the relay pairs the two by stream
id (`forwardMatcher`), and the goroutine of the half that came second – the
*driver* – issues two allocations and writes `ALLOC_GRANTED` to both agents.

The matcher signals by one channel per half. The driver is handed its peer over
its own channel. The channel of the half that came first is closed, and closed
means one of two things: a driver has taken care of it, or its window has
elapsed, which a flag set before the close tells apart.

The machine runs any number of these goroutines (`driveForwardResume`) with
their expiry goroutines, over the connections and the plane of the relay. The
plane is shared with the streams that are opened in forward mode, of which the
machine has the part that issues and releases allocations. Three parts of its
state are not in the source: `fate` records what became of a half when it left
`pending`; `issued` lists the allocations issued, and for whom; `granted` lists
the `ALLOC_GRANTED` frames of the drivers, by round.
-/

/-- The relay with the address of its forwarding plane. -/
structure ForwardConfig extends RelayConfig where
  endpoint : GoString

/-- Where `driveForwardResume` is: in `Submit` (the first two), at the receive,
and after it. The last two are its returns, with and without a grant. -/
inductive DrivePC
  | sendSelf (peer : ℕ)
  | closePeer (peer : ℕ)
  | recv
  | resolve
  | allocSelf (peer : ℕ)
  | allocPeer (peer : ℕ) (selfAlloc : UInt32)
  | successors (peer : ℕ) (selfAlloc peerAlloc : UInt32)
  | writeSelf (peer : ℕ) (selfAlloc peerAlloc : UInt32) (resumeRelays : List GoString)
  | writePeer (peer : ℕ) (selfAlloc peerAlloc : UInt32) (resumeRelays : List GoString)
  | granted (peer : ℕ) (selfAlloc peerAlloc : UInt32) (resumeRelays : List GoString)
  | returned
  deriving DecidableEq

/-- Where the expiry goroutine of a parked half is: in its `select`, before the
lock, before it sets `timedOut`, before it closes the channel, at its end. -/
inductive WindowPC
  | select
  | fired
  | setTimedOut
  | closing
  | exited
  deriving DecidableEq

/-- `halfForwardResume`, with the goroutines that work on it. -/
structure ForwardHalf where
  id : UInt64
  agentURI : AgentURI
  ac : ℕ
  matched : GoChan ℕ
  timedOut : Bool
  driver : DrivePC
  got : Option (Option ℕ)
  expiry : Option WindowPC
  fate : Fate

/-- Where a forward-mode `handleConsumerStream` is, from the lookup of the
provider's connection on: the two calls of `Allocate`, the grant and the life of
the stream, and the two deferred calls of `Forget`. -/
inductive OpenPC
  | allocConsumer
  | allocProvider (consumerAlloc : UInt32)
  | granted (consumerAlloc providerAlloc : UInt32)
  | forgetConsumer (consumerAlloc : UInt32)
  | returned
  deriving DecidableEq

/-- A forward-mode `handleConsumerStream`. -/
structure ForwardOpen where
  callerURI : AgentURI
  providerURI : AgentURI
  pc : OpenPC

/-- For whom an allocation was issued: the two ends of a grant round, by its
driver, or the two ends of an opened stream. -/
inductive Grantee
  | driverSelf (i : ℕ)
  | driverPeer (i : ℕ)
  | consumer (k : ℕ)
  | provider (k : ℕ)
  deriving DecidableEq

/-- An `ALLOC_GRANTED` frame of the driver `round`, with the connection it is
written to. -/
structure Grant where
  round : ℕ
  ac : ℕ
  frame : AllocGranted
  deriving DecidableEq

/-- The relay, its successor list, `forwardMatcher` with the halves submitted to
it, and the forward-mode streams. -/
structure ForwardState where
  relay : RelayState
  successors : List GoString
  halves : List ForwardHalf
  pending : GoMap UInt64 ℕ
  opens : List ForwardOpen
  granted : List Grant
  issued : List (UInt32 × Grantee)
  panicked : Bool

/-- A step of one goroutine. -/
inductive ForwardEvent
  | relay (e : RelayEvent)
  | setSuccessors (endpoints : List GoString)
  | submit (ac : ℕ) (id : UInt64)
  | driver (i : ℕ) (now : Time)
  | windowRecv (i : ℕ)
  | timerFire (i : ℕ)
  | window (i : ℕ)
  | openForward (caller : ℕ) (provider : GoString)
  | openStep (k : ℕ) (now : Time)

/-- The connections that an event makes. -/
def ForwardEvent.registers : ForwardEvent → ℕ
  | .relay e => e.registers
  | _ => 0

/-- The events of the relay that happen on their own: `Allocate` and `Forget`
are called by the goroutines of the machine. -/
def RelayEvent.isOwn : RelayEvent → Bool
  | .plane (.allocate _ _) => false
  | .plane (.forget _) => false
  | _ => true

namespace ForwardState

/-- Update the half at `i`. -/
abbrev modifyHalf (s : ForwardState) (i : ℕ) (f : ForwardHalf → ForwardHalf) : ForwardState :=
  { s with halves := s.halves.modify i f }

/-- Go on with the result of a channel operation; a panic is noted. -/
abbrev afterChan {β : Type} (s : ForwardState) (r : ChanResult β) (k : β → ForwardState) :
    Option ForwardState :=
  r.andThen { s with panicked := true } k

/-- `Plane.Allocate`, on behalf of `grantee`. -/
def allocate (cfg : ForwardConfig) (s : ForwardState) (uri : AgentURI) (now : Time)
    (grantee : Grantee) : Option (ForwardState × UInt32) :=
  (s.relay.step cfg.toRelayConfig (.plane (.allocate uri.val now))).map (fun relay =>
    ({ s with
      relay := relay
      issued := s.issued ++ [(Plane.nextAllocID s.relay.forward.plane.nextID, grantee)] },
    Plane.nextAllocID s.relay.forward.plane.nextID))

/-- `Plane.Forget`. -/
def forget (cfg : ForwardConfig) (s : ForwardState) (id : UInt32) : Option ForwardState :=
  (s.relay.step cfg.toRelayConfig (.plane (.forget id))).map
    (fun relay => { s with relay := relay })

/-- The critical section of `Submit`, for a half that a `FORWARD_RESUME` frame
of connection `ac` made. -/
def submit (s : ForwardState) (ac : ℕ) (uri : AgentURI) (id : UInt64) : ForwardState :=
  let self : ForwardHalf :=
    { id := id, agentURI := uri, ac := ac, matched := GoChan.make 1, timedOut := false,
      driver := .recv, got := none, expiry := none, fate := .parked }
  match s.pending.get id with
  | some peer =>
    { s with
      halves := s.halves.modify peer (fun h => { h with fate := .matchedWith s.halves.length })
        ++ [{ self with driver := .sendSelf peer, fate := .matchedWith peer }]
      pending := s.pending.del id }
  | none =>
    { s with
      halves := s.halves ++ [{ self with expiry := some .select }]
      pending := s.pending.set id s.halves.length }

/-- **The next step of `driveForwardResume`**: the rest of `Submit`, the receive,
and the grant. -/
def driverStep (cfg : ForwardConfig) (s : ForwardState) (i : ℕ) (now : Time) (h : ForwardHalf) :
    Option ForwardState :=
  match h.driver with
  | .sendSelf p =>
    s.afterChan (h.matched.send p) (fun c =>
      s.modifyHalf i (fun h => { h with matched := c, driver := .closePeer p }))
  | .closePeer p =>
    (s.halves[p]?).bind (fun peer =>
      s.afterChan peer.matched.close (fun c =>
        (s.modifyHalf p (fun h => { h with matched := c })).modifyHalf i
          (fun h => { h with driver := .recv })))
  | .recv =>
    s.afterChan h.matched.recv (fun r =>
      s.modifyHalf i (fun h => { h with matched := r.snd, got := some r.fst, driver := .resolve }))
  | .resolve =>
    match h.got with
    | some (some p) => some (s.modifyHalf i (fun h => { h with driver := .allocSelf p }))
    -- `timedOut` is read here, for the log and a counter
    | _ => some (s.modifyHalf i (fun h => { h with driver := .returned }))
  | .allocSelf p =>
    (s.allocate cfg h.agentURI now (.driverSelf i)).map (fun r =>
      r.fst.modifyHalf i (fun h => { h with driver := .allocPeer p r.snd }))
  | .allocPeer p selfAlloc =>
    (s.halves[p]?).bind (fun peer =>
      (s.allocate cfg peer.agentURI now (.driverPeer i)).map (fun r =>
        r.fst.modifyHalf i (fun h => { h with driver := .successors p selfAlloc r.snd })))
  | .successors p selfAlloc peerAlloc =>
    some (s.modifyHalf i (fun h =>
      { h with driver := .writeSelf p selfAlloc peerAlloc s.successors }))
  | .writeSelf p selfAlloc peerAlloc resumeRelays =>
    some { s.modifyHalf i (fun h =>
        { h with driver := .writePeer p selfAlloc peerAlloc resumeRelays }) with
      granted := s.granted
        ++ [⟨i, h.ac, ⟨h.id, selfAlloc, peerAlloc, cfg.endpoint, resumeRelays⟩⟩] }
  | .writePeer p selfAlloc peerAlloc resumeRelays =>
    (s.halves[p]?).bind (fun peer =>
      some { s.modifyHalf i (fun h =>
          { h with driver := .granted p selfAlloc peerAlloc resumeRelays }) with
        granted := s.granted
          ++ [⟨i, peer.ac, ⟨h.id, peerAlloc, selfAlloc, cfg.endpoint, resumeRelays⟩⟩] })
  | .granted _ _ _ _ => none
  | .returned => none

/-- The expiry goroutine finds the channel of its half closed, and exits. -/
def windowRecv (s : ForwardState) (i : ℕ) (h : ForwardHalf) : Option ForwardState :=
  if h.expiry = some .select then
    s.afterChan h.matched.recv (fun r =>
      s.modifyHalf i (fun h => { h with matched := r.snd, expiry := some .exited }))
  else none

/-- The window of a parked half elapses. -/
def timerFire (s : ForwardState) (i : ℕ) (h : ForwardHalf) : Option ForwardState :=
  if h.expiry = some .select then
    some (s.modifyHalf i (fun h => { h with expiry := some .fired }))
  else none

/-- **The next step of the expiry goroutine** once its timer has fired: the
critical section, which takes the half out of `pending` if it is still there,
the flag, and the close. -/
def windowStep (s : ForwardState) (i : ℕ) (h : ForwardHalf) : Option ForwardState :=
  match h.expiry with
  | some .fired =>
    if s.pending.get h.id = some i then
      some { s.modifyHalf i (fun h => { h with expiry := some .setTimedOut, fate := .expired }) with
        pending := s.pending.del h.id }
    else some (s.modifyHalf i (fun h => { h with expiry := some .exited }))
  | some .setTimedOut =>
    some (s.modifyHalf i (fun h => { h with timedOut := true, expiry := some .closing }))
  | some .closing =>
    s.afterChan h.matched.close (fun c =>
      s.modifyHalf i (fun h => { h with matched := c, expiry := some .exited }))
  | _ => none

/-- Set where the handler of the opened stream `k` is. -/
def setOpen (s : ForwardState) (k : ℕ) (pc : OpenPC) : ForwardState :=
  { s with opens := s.opens.modify k (fun o => { o with pc := pc }) }

/-- The next step of a forward-mode `handleConsumerStream`. The deferred calls
run last in, first out. -/
def openStep (cfg : ForwardConfig) (s : ForwardState) (k : ℕ) (now : Time) (o : ForwardOpen) :
    Option ForwardState :=
  match o.pc with
  | .allocConsumer =>
    (s.allocate cfg o.callerURI now (.consumer k)).map (fun r =>
      r.fst.setOpen k (.allocProvider r.snd))
  | .allocProvider consumerAlloc =>
    (s.allocate cfg o.providerURI now (.provider k)).map (fun r =>
      r.fst.setOpen k (.granted consumerAlloc r.snd))
  | .granted consumerAlloc providerAlloc =>
    (s.forget cfg providerAlloc).map (fun s => s.setOpen k (.forgetConsumer consumerAlloc))
  | .forgetConsumer consumerAlloc =>
    (s.forget cfg consumerAlloc).map (fun s => s.setOpen k .returned)
  | .returned => none

/-- **One step.** Frames come over connections whose control loop has started,
and are dropped where the relay has no plane. A panic is the end of the
process. -/
def step (cfg : ForwardConfig) (s : ForwardState) (e : ForwardEvent) : Option ForwardState :=
  if s.panicked then none
  else match e with
    | .relay e =>
      if e.isOwn then (s.relay.step cfg.toRelayConfig e).map (fun r => { s with relay := r })
      else none
    | .setSuccessors endpoints => some { s with successors := endpoints }
    | .submit ac id =>
      (s.relay.links[ac]?).bind (fun link =>
        if link.pc ≠ .registered ∧ cfg.forward then some (s.submit ac link.uri id) else none)
    | .driver i now => (s.halves[i]?).bind (s.driverStep cfg i now)
    | .windowRecv i => (s.halves[i]?).bind (s.windowRecv i)
    | .timerFire i => (s.halves[i]?).bind (s.timerFire i)
    | .window i => (s.halves[i]?).bind (s.windowStep i)
    | .openForward caller provider =>
      (s.relay.links[caller]?).bind (fun link =>
        (s.relay.lookupAgent provider).bind (fun j =>
          (s.relay.links[j]?).bind (fun provAC =>
            if link.pc ≠ .registered ∧ cfg.forward then
              some { s with opens := s.opens ++ [⟨link.uri, provAC.uri, .allocConsumer⟩] }
            else none)))
    | .openStep k now => (s.opens[k]?).bind (s.openStep cfg k now)

end ForwardState

/-- **The relay with its forward-mode streams**, from its start. -/
def forwardMachine (cfg : ForwardConfig) (idleTTL pendingTTL start : Time) :
    Machine ForwardState ForwardEvent where
  init :=
    { relay := (relayMachine cfg.toRelayConfig idleTTL pendingTTL start).init,
      successors := [], halves := [], pending := ∅, opens := [], granted := [], issued := [],
      panicked := false }
  step := ForwardState.step cfg

/-! ## The protocol of a pair -/

namespace DrivePC

/-- The peer that a driver is busy with. -/
def peer? : DrivePC → Option ℕ
  | .sendSelf p | .closePeer p | .allocSelf p | .allocPeer p _ | .successors p _ _
  | .writeSelf p _ _ _ | .writePeer p _ _ _ | .granted p _ _ _ => some p
  | .recv | .resolve | .returned => none

/-- A driver has closed the channel of its peer. -/
def closed : DrivePC → Bool
  | .sendSelf _ | .closePeer _ => false
  | _ => true

/-- How far a driver is from the end of its grant round. -/
def toGrant : DrivePC → ℕ
  | .sendSelf _ => 9
  | .closePeer _ => 8
  | .recv => 7
  | .resolve => 6
  | .allocSelf _ => 5
  | .allocPeer _ _ => 4
  | .successors _ _ _ => 3
  | .writeSelf _ _ _ _ => 2
  | .writePeer _ _ _ _ => 1
  | .granted _ _ _ _ => 0
  | .returned => 0

end DrivePC

namespace ForwardHalf

/-- The handler waits at an open and empty channel. -/
def Idle (a : ForwardHalf) : Prop :=
  a.driver = .recv ∧ a.got = none ∧ a.matched = GoChan.make 1

/-- The channel is closed, and the handler finds it so. -/
def Released (a : ForwardHalf) : Prop :=
  a.matched = ⟨1, [], true⟩
    ∧ ((a.driver = .recv ∧ a.got = none)
      ∨ ((a.driver = .resolve ∨ a.driver = .returned) ∧ a.got = some none))

/-- The driver of a pair, by where its goroutine is. -/
def SecondOK (p : ℕ) (a : ForwardHalf) : Prop :=
  match a.driver with
  | .sendSelf q => q = p ∧ a.matched = GoChan.make 1 ∧ a.got = none
  | .closePeer q => q = p ∧ a.matched = ⟨1, [p], false⟩ ∧ a.got = none
  | .recv => a.matched = ⟨1, [p], false⟩ ∧ a.got = none
  | .resolve => a.got = some (some p)
  | .allocSelf q => q = p ∧ a.got = some (some p)
  | .allocPeer q _ => q = p ∧ a.got = some (some p)
  | .successors q _ _ => q = p ∧ a.got = some (some p)
  | .writeSelf q _ _ _ => q = p ∧ a.got = some (some p)
  | .writePeer q _ _ _ => q = p ∧ a.got = some (some p)
  | .granted q _ _ _ => q = p ∧ a.got = some (some p)
  | .returned => False

/-- The other half of a pair, given where the goroutine `pc` of the driver is. -/
def FirstOK (pc : DrivePC) (b : ForwardHalf) : Prop := if pc.closed then b.Released else b.Idle

/-- **A matched pair**: the driver `a`, at `i`, and the half `b`, at `p`, that
came first. -/
structure Paired (i p : ℕ) (a b : ForwardHalf) : Prop where
  fates : a.fate = .matchedWith p ∧ b.fate = .matchedWith i ∧ a.id = b.id ∧ p < i
  windows : a.expiry = none
    ∧ (b.expiry = some .select ∨ b.expiry = some .fired ∨ b.expiry = some .exited)
  onTime : a.timedOut = false ∧ b.timedOut = false
  second : a.SecondOK p
  first : b.FirstOK a.driver

/-- A half that waits for its peer. -/
structure Waits (a : ForwardHalf) : Prop where
  idle : a.Idle
  window : (a.expiry = some .select ∨ a.expiry = some .fired) ∧ a.timedOut = false

/-- A half whose window has elapsed, by what its expiry goroutine has still to
do. -/
def Elapsed (a : ForwardHalf) : Prop :=
  (a.expiry = some .setTimedOut ∧ a.timedOut = false ∧ a.Idle)
    ∨ (a.expiry = some .closing ∧ a.timedOut = true ∧ a.Idle)
    ∨ (a.expiry = some .exited ∧ a.timedOut = true ∧ a.Released)

variable {i p : ℕ} {a b c d : ForwardHalf}

theorem SecondOK.peer_eq {q : ℕ} (h : a.SecondOK p) (hpc : a.driver.peer? = some q) : q = p := by
  unfold SecondOK at h
  cases hh : a.driver <;> rw [hh] at h hpc <;> cases hpc <;> exact h.1

theorem Idle.peer_eq_none (h : a.Idle) : a.driver.peer? = none := by
  rw [h.1]
  rfl

theorem Released.peer_eq_none (h : a.Released) : a.driver.peer? = none := by
  rcases h.2 with ⟨h, -⟩ | ⟨h | h, -⟩ <;> rw [h] <;> rfl

theorem FirstOK.idle_or_released {pc : DrivePC} (h : b.FirstOK pc) : b.Idle ∨ b.Released := by
  unfold FirstOK at h
  split_ifs at h
  · exact Or.inr h
  · exact Or.inl h

theorem Elapsed.idle_or_released (h : a.Elapsed) : a.Idle ∨ a.Released := by
  rcases h with h | h | h
  · exact Or.inl h.2.2
  · exact Or.inl h.2.2
  · exact Or.inr h.2.2

theorem peer_eq_none_of (h : a.Idle ∨ a.Released) : a.driver.peer? = none :=
  h.elim Idle.peer_eq_none Released.peer_eq_none

/-- **The goroutine of the driver moves on**, without closing the channel of its
peer. -/
theorem Paired.advance (hab : a.Paired i p b)
    (hfix : c.fate = a.fate ∧ c.id = a.id ∧ c.expiry = a.expiry ∧ c.timedOut = a.timedOut)
    (hclosed : c.driver.closed = a.driver.closed) (hsecond : c.SecondOK p) : c.Paired i p b := by
  refine ⟨⟨hfix.1.trans hab.fates.1, hab.fates.2.1, hfix.2.1.trans hab.fates.2.2.1,
    hab.fates.2.2.2⟩, ⟨hfix.2.2.1.trans hab.windows.1, hab.windows.2⟩,
    ⟨hfix.2.2.2.trans hab.onTime.1, hab.onTime.2⟩, hsecond, ?_⟩
  have hfirst := hab.first
  unfold FirstOK at hfirst ⊢
  rw [hclosed]
  exact hfirst

/-- **The other half changes**, as far as the driver allows it. -/
theorem Paired.follow (hab : a.Paired i p b)
    (hfix : d.fate = b.fate ∧ d.id = b.id ∧ d.timedOut = b.timedOut)
    (hwin : d.expiry = some .select ∨ d.expiry = some .fired ∨ d.expiry = some .exited)
    (hfirst : d.FirstOK a.driver) : a.Paired i p d :=
  ⟨⟨hab.fates.1, hfix.1.trans hab.fates.2.1, hab.fates.2.2.1.trans hfix.2.1.symm,
    hab.fates.2.2.2⟩, ⟨hab.windows.1, hwin⟩, ⟨hab.onTime.1, hfix.2.2.trans hab.onTime.2⟩,
    hab.second, hfirst⟩

theorem Paired.ne (hab : a.Paired i p b) : p ≠ i := Nat.ne_of_lt hab.fates.2.2.2

end ForwardHalf

/-- **The protocol of a resumed forward-mode pair.** -/
def forwardProtocol : Rendezvous UInt64 ForwardHalf where
  key := ForwardHalf.id
  fate := ForwardHalf.fate
  Parked := ForwardHalf.Waits
  Expired := ForwardHalf.Elapsed
  Paired := ForwardHalf.Paired
  fate_second h := h.fates.1
  fate_first h := h.fates.2.1
  key_eq h := h.fates.2.2.1
  irrefl h := Nat.lt_irrefl _ h.fates.2.2.2

namespace ForwardState

/-- **The halves follow the protocol, and nothing has panicked.** -/
structure MatchInv (s : ForwardState) : Prop where
  halves : forwardProtocol.Inv (heap s.halves) s.pending
  calm : s.panicked = false

variable {cfg : ForwardConfig} {s s' : ForwardState} {i p : ℕ} {now : Time} {a b : ForwardHalf}

/-- What a step leaves alone keeps the protocol. -/
theorem MatchInv.congr (I : s.MatchInv)
    (h : s'.halves = s.halves ∧ s'.pending = s.pending ∧ s'.panicked = s.panicked) :
    s'.MatchInv := by
  refine ⟨?_, h.2.2.trans I.calm⟩
  rw [h.1, h.2.1]
  exact I.halves

namespace MatchInv

/-- **A goroutine that is busy with a peer is that of a driver.** -/
theorem second_of_peer (I : s.MatchInv) (hi : heap s.halves i = some a)
    (hpc : a.driver.peer? = some p) : ∃ b, heap s.halves p = some b ∧ a.Paired i p b := by
  have hnone : ∀ {P : Prop}, a.Idle ∨ a.Released → P := by
    intro P h
    cases (ForwardHalf.peer_eq_none_of h).symm.trans hpc
  have hok := I.halves.party i a hi
  cases hf : a.fate with
  | parked => exact hnone (Or.inl (hok.parked hf).2.idle)
  | expired => exact hnone (hok.expired hf).2.idle_or_released
  | matchedWith q =>
    obtain ⟨-, b, hb, hab | hab⟩ := hok.matched hf
    · obtain rfl := hab.second.peer_eq hpc
      exact ⟨b, hb, hab⟩
    · exact hnone hab.first.idle_or_released

/-- The driver of a pair changes. -/
theorem setSecond (I : s.MatchInv) (hi : heap s.halves i = some a) (hp : heap s.halves p = some b)
    (hab : a.Paired i p b) {f : ForwardHalf → ForwardHalf} (hfb : (f a).Paired i p b) :
    (s.modifyHalf i f).MatchInv := by
  refine ⟨?_, I.calm⟩
  rw [heap_modify hi]
  exact I.halves.updateSecond hi hp hab hfb

/-- The other half of a pair changes. -/
theorem setFirst (I : s.MatchInv) (hi : heap s.halves i = some a) (hp : heap s.halves p = some b)
    (hab : a.Paired i p b) {f : ForwardHalf → ForwardHalf} (hfb : a.Paired i p (f b)) :
    (s.modifyHalf p f).MatchInv := by
  refine ⟨?_, I.calm⟩
  rw [heap_modify hp]
  exact I.halves.updateFirst hi hp hab hfb

/-- A half whose window has elapsed changes. -/
theorem setElapsed (I : s.MatchInv) (hi : heap s.halves i = some a) (hf : a.fate = .expired)
    {f : ForwardHalf → ForwardHalf} (hfix : (f a).id = a.id ∧ (f a).fate = a.fate)
    (hfa : (f a).Elapsed) : (s.modifyHalf i f).MatchInv := by
  refine ⟨?_, I.calm⟩
  rw [heap_modify hi]
  exact I.halves.updateExpired hi hf hfix.1 (hfix.2.trans hf) hfa

end MatchInv

/-! ## The steps of the matcher -/

/-- Submitting a half. -/
theorem matchInv_submit (I : s.MatchInv) (ac : ℕ) (uri : AgentURI) (id : UInt64) :
    (s.submit ac uri id).MatchInv := by
  unfold submit
  cases hpend : s.pending.get id with
  | none =>
    refine ⟨?_, I.calm⟩
    dsimp only
    rw [heap_append]
    exact I.halves.park (heap_length _) hpend rfl rfl ⟨⟨rfl, rfl, rfl⟩, Or.inl rfl, rfl⟩
  | some peer =>
    refine ⟨?_, I.calm⟩
    obtain ⟨b, hb, hid, hf⟩ := I.halves.waits id peer hpend
    obtain ⟨-, hwait⟩ := (I.halves.party peer b hb).parked hf
    dsimp only
    rw [heap_modify_append hb]
    refine I.halves.pairUp (heap_length _) hb hpend rfl ?_
    exact ⟨⟨rfl, rfl, hid.symm, heap_lt hb⟩, ⟨rfl, hwait.window.1.imp_right Or.inl⟩,
      ⟨rfl, hwait.window.2⟩, ⟨rfl, rfl, rfl⟩, hwait.idle⟩

/-- **The rest of `Submit`**: the driver hands itself its peer, and closes the
channel of the other half. -/
theorem matchInv_submitting (I : s.MatchInv) (hi : heap s.halves i = some a)
    (hpc : a.driver = .sendSelf p ∨ a.driver = .closePeer p)
    (hstep : s.driverStep cfg i now a = some s') : s'.MatchInv := by
  have hpeer : a.driver.peer? = some p := by
    rcases hpc with h | h <;> rw [h] <;> rfl
  obtain ⟨b, hp, hab⟩ := I.second_of_peer hi hpeer
  have hsec := hab.second
  have hfirst := hab.first
  unfold ForwardHalf.SecondOK at hsec
  unfold driverStep at hstep
  rcases hpc with hh | hh
  · rw [hh] at hsec hstep
    dsimp only at hstep
    rw [hsec.2.1] at hstep
    cases hstep
    exact I.setSecond hi hp hab (hab.advance ⟨rfl, rfl, rfl, rfl⟩ (by rw [hh]; rfl)
      ⟨rfl, rfl, hsec.2.2⟩)
  · rw [hh] at hsec hstep hfirst
    have hidle : b.Idle := hfirst
    dsimp only at hstep
    rw [show s.halves[p]? = some b from hp, Option.bind_some, hidle.2.2] at hstep
    cases hstep
    refine ⟨?_, I.calm⟩
    rw [heap_modify_two hab.ne hp hi]
    refine I.halves.updatePair hi hp hab rfl rfl ?_
    exact ⟨hab.fates, hab.windows, hab.onTime, hsec.2, rfl, Or.inl ⟨hidle.1, hidle.2.1⟩⟩

/-- **A receive of a handler**: its channel is closed, or it is a driver and gets
its peer. -/
theorem matchInv_recv (I : s.MatchInv) (hi : heap s.halves i = some a) (hh : a.driver = .recv)
    (hstep : s.driverStep cfg i now a = some s') : s'.MatchInv := by
  unfold driverStep at hstep
  rw [hh] at hstep
  dsimp only at hstep
  have hidle : ∀ {P : Prop}, a.Idle → P := by
    intro P h
    rw [h.2.2] at hstep
    cases hstep
  have hok := I.halves.party i a hi
  cases hf : a.fate with
  | parked => exact hidle (hok.parked hf).2.idle
  | expired =>
    rcases (hok.expired hf).2 with h | h | ⟨hexp, htime, hrel⟩
    · exact hidle h.2.2
    · exact hidle h.2.2
    · rw [hrel.1] at hstep
      cases hstep
      exact I.setElapsed hi hf ⟨rfl, rfl⟩
        (Or.inr (Or.inr ⟨hexp, htime, rfl, Or.inr ⟨Or.inl rfl, rfl⟩⟩))
  | matchedWith q =>
    obtain ⟨-, b, hb, hab | hab⟩ := hok.matched hf
    · have hsec := hab.second
      unfold ForwardHalf.SecondOK at hsec
      rw [hh] at hsec
      rw [hsec.1] at hstep
      cases hstep
      exact I.setSecond hi hb hab (hab.advance ⟨rfl, rfl, rfl, rfl⟩ (by rw [hh]; rfl) rfl)
    · have hfirst := hab.first
      unfold ForwardHalf.FirstOK at hfirst
      split_ifs at hfirst with hcl
      · rw [hfirst.1] at hstep
        cases hstep
        refine I.setFirst hb hi hab (hab.follow ⟨rfl, rfl, rfl⟩ hab.windows.2 ?_)
        unfold ForwardHalf.FirstOK
        rw [if_pos hcl]
        exact ⟨rfl, Or.inr ⟨Or.inl rfl, rfl⟩⟩
      · exact hidle hfirst

/-- The handler goes on with what it received. -/
theorem matchInv_resolve (I : s.MatchInv) (hi : heap s.halves i = some a)
    (hh : a.driver = .resolve) (hstep : s.driverStep cfg i now a = some s') : s'.MatchInv := by
  unfold driverStep at hstep
  rw [hh] at hstep
  dsimp only at hstep
  have hidle : ∀ {P : Prop}, a.Idle → P := by
    intro P h
    cases hh.symm.trans h.1
  -- what the handler of a half whose channel is closed received
  have hgot : a.Released → a.got = some none := by
    rintro ⟨-, ⟨h, -⟩ | ⟨-, h⟩⟩
    · cases hh.symm.trans h
    · exact h
  have hok := I.halves.party i a hi
  cases hf : a.fate with
  | parked => exact hidle (hok.parked hf).2.idle
  | expired =>
    rcases (hok.expired hf).2 with h | h | ⟨hexp, htime, hrel⟩
    · exact hidle h.2.2
    · exact hidle h.2.2
    · rw [hgot hrel] at hstep
      cases hstep
      exact I.setElapsed hi hf ⟨rfl, rfl⟩
        (Or.inr (Or.inr ⟨hexp, htime, hrel.1, Or.inr ⟨Or.inr rfl, hgot hrel⟩⟩))
  | matchedWith q =>
    obtain ⟨-, b, hb, hab | hab⟩ := hok.matched hf
    · have hsec := hab.second
      unfold ForwardHalf.SecondOK at hsec
      rw [hh] at hsec
      rw [hsec] at hstep
      cases hstep
      exact I.setSecond hi hb hab
        (hab.advance ⟨rfl, rfl, rfl, rfl⟩ (by rw [hh]; rfl) ⟨rfl, hsec⟩)
    · have hfirst := hab.first
      unfold ForwardHalf.FirstOK at hfirst
      split_ifs at hfirst with hcl
      · rw [hgot hfirst] at hstep
        cases hstep
        refine I.setFirst hb hi hab (hab.follow ⟨rfl, rfl, rfl⟩ hab.windows.2 ?_)
        unfold ForwardHalf.FirstOK
        rw [if_pos hcl]
        exact ⟨hfirst.1, Or.inr ⟨Or.inr rfl, hgot hfirst⟩⟩
      · exact hidle hfirst

/-- What `Allocate` leaves alone. -/
theorem allocate_eq {uri : AgentURI} {grantee : Grantee} {r : ForwardState × UInt32}
    (h : s.allocate cfg uri now grantee = some r) :
    ∃ relay, s.relay.step cfg.toRelayConfig (.plane (.allocate uri.val now)) = some relay
      ∧ r.snd = Plane.nextAllocID s.relay.forward.plane.nextID
      ∧ r.fst = { s with relay := relay, issued := s.issued ++ [(r.snd, grantee)] } := by
  unfold allocate at h
  obtain ⟨relay, hrelay, rfl⟩ := Option.map_eq_some_iff.mp h
  exact ⟨relay, hrelay, rfl, rfl⟩

/-- **The grant round of a driver** moves its goroutine, and nothing else of the
halves. -/
theorem driverStep_granting (hpc : a.driver.closed = true) (hpeer : a.driver.peer? = some p)
    (hstep : s.driverStep cfg i now a = some s') :
    ∃ pc, s'.halves = (s.modifyHalf i (fun h => { h with driver := pc })).halves
      ∧ s'.pending = s.pending ∧ s'.panicked = s.panicked
      ∧ pc.peer? = some p ∧ pc.closed = true ∧ pc.toGrant + 1 = a.driver.toGrant := by
  unfold driverStep at hstep
  cases hh : a.driver <;> rw [hh] at hstep hpc hpeer <;> dsimp only at hstep
  case sendSelf q => cases hpc
  case closePeer q => cases hpc
  case recv => cases hpeer
  case resolve => cases hpeer
  case returned => cases hpeer
  case granted q x y rr => cases hstep
  case allocSelf q =>
    obtain ⟨r, hr, rfl⟩ := Option.map_eq_some_iff.mp hstep
    obtain ⟨relay, -, -, heq⟩ := allocate_eq hr
    rw [heq]
    exact ⟨_, rfl, rfl, rfl, hpeer, rfl, rfl⟩
  case allocPeer q x =>
    obtain ⟨peer, -, hstep⟩ := Option.bind_eq_some_iff.mp hstep
    obtain ⟨r, hr, rfl⟩ := Option.map_eq_some_iff.mp hstep
    obtain ⟨relay, -, -, heq⟩ := allocate_eq hr
    rw [heq]
    exact ⟨_, rfl, rfl, rfl, hpeer, rfl, rfl⟩
  case successors q x y =>
    cases hstep
    exact ⟨_, rfl, rfl, rfl, hpeer, rfl, rfl⟩
  case writeSelf q x y rr =>
    cases hstep
    exact ⟨_, rfl, rfl, rfl, hpeer, rfl, rfl⟩
  case writePeer q x y rr =>
    obtain ⟨peer, -, hstep⟩ := Option.bind_eq_some_iff.mp hstep
    cases hstep
    exact ⟨_, rfl, rfl, rfl, hpeer, rfl, rfl⟩

/-- **A step of `driveForwardResume`.** -/
theorem matchInv_driver (I : s.MatchInv) (hi : heap s.halves i = some a)
    (hstep : s.driverStep cfg i now a = some s') : s'.MatchInv := by
  -- in its grant round a driver keeps what it received
  have hgrant : ∀ {p}, a.driver.closed = true → a.driver.peer? = some p → s'.MatchInv := by
    intro p hcl hpeer
    obtain ⟨b, hp, hab⟩ := I.second_of_peer hi hpeer
    obtain ⟨pc, hhalves, hpend, hcalm, hpeer', hcl', -⟩ := driverStep_granting hcl hpeer hstep
    have hgot : a.got = some (some p) := by
      have hsec := hab.second
      unfold ForwardHalf.SecondOK at hsec
      cases hh : a.driver <;> rw [hh] at hsec hcl hpeer
      case sendSelf => cases hcl
      case closePeer => cases hcl
      case recv => cases hpeer
      case resolve => cases hpeer
      case returned => cases hpeer
      all_goals exact hsec.2
    have hsec' : ({ a with driver := pc } : ForwardHalf).SecondOK p := by
      unfold ForwardHalf.SecondOK
      cases pc
      case sendSelf => cases hcl'
      case closePeer => cases hcl'
      case recv => cases hpeer'
      case resolve => cases hpeer'
      case returned => cases hpeer'
      all_goals exact ⟨Option.some.inj hpeer', hgot⟩
    exact (I.setSecond hi hp hab (hab.advance ⟨rfl, rfl, rfl, rfl⟩ (hcl'.trans hcl.symm)
      hsec')).congr ⟨hhalves, hpend, hcalm⟩
  cases hh : a.driver with
  | sendSelf p => exact matchInv_submitting I hi (Or.inl hh) hstep
  | closePeer p => exact matchInv_submitting I hi (Or.inr hh) hstep
  | recv => exact matchInv_recv I hi hh hstep
  | resolve => exact matchInv_resolve I hi hh hstep
  | returned =>
    unfold driverStep at hstep
    rw [hh] at hstep
    cases hstep
  | _ => exact hgrant (by rw [hh]; rfl) (by rw [hh]; rfl)

/-- A half whose expiry goroutine is in its `select`, or has seen the timer
fire, waits, or is the first of a pair. -/
theorem first_of_window (I : s.MatchInv) (hi : heap s.halves i = some a)
    (hx : a.expiry = some .select ∨ a.expiry = some .fired) :
    (a.fate = .parked ∧ a.Waits ∧ s.pending.get a.id = some i)
      ∨ ∃ j b, heap s.halves j = some b ∧ b.Paired j i a ∧ s.pending.get a.id ≠ some i := by
  have hok := I.halves.party i a hi
  cases hf : a.fate with
  | parked =>
    obtain ⟨hpend, hwait⟩ := hok.parked hf
    exact Or.inl ⟨rfl, hwait, hpend⟩
  | expired =>
    rcases (hok.expired hf).2 with ⟨h, -⟩ | ⟨h, -⟩ | ⟨h, -⟩ <;> rw [h] at hx <;>
      rcases hx with hx | hx <;> cases hx
  | matchedWith q =>
    obtain ⟨hpend, b, hb, hab | hab⟩ := hok.matched hf
    · rw [hab.windows.1] at hx
      rcases hx with hx | hx <;> cases hx
    · exact Or.inr ⟨q, b, hb, hab, hpend⟩

/-- The expiry goroutine of a half moves on before its critical section. -/
theorem matchInv_select (I : s.MatchInv) (hi : heap s.halves i = some a)
    (hx : a.expiry = some .select ∨ a.expiry = some .fired) {x : WindowPC}
    (hparked : a.fate = .parked → x = .fired) (hfirst : x = .fired ∨ x = .exited) :
    (s.modifyHalf i (fun h => { h with expiry := some x })).MatchInv := by
  rcases first_of_window I hi hx with ⟨hf, hwait, -⟩ | ⟨j, b, hj, hba, -⟩
  · refine ⟨?_, I.calm⟩
    rw [heap_modify hi]
    exact I.halves.updateParked hi hf rfl hf
      ⟨hwait.idle, Or.inr (congrArg some (hparked hf)), hwait.window.2⟩
  · exact I.setFirst hj hi hba (hba.follow ⟨rfl, rfl, rfl⟩
      (Or.inr (hfirst.imp (congrArg some) (congrArg some))) hba.first)

/-- The expiry goroutine finds the channel closed. -/
theorem matchInv_windowRecv (I : s.MatchInv) (hi : heap s.halves i = some a)
    (hstep : s.windowRecv i a = some s') : s'.MatchInv := by
  unfold windowRecv at hstep
  split_ifs at hstep with hsel
  have hidle : ∀ {P : Prop}, a.Idle → P := by
    intro P h
    rw [h.2.2] at hstep
    cases hstep
  rcases first_of_window I hi (Or.inl hsel) with ⟨-, hwait, -⟩ | ⟨j, b, hj, hba, -⟩
  · exact hidle hwait.idle
  · rcases hba.first.idle_or_released with h | h
    · exact hidle h
    · have hm := h.1
      rw [hm] at hstep
      cases hstep
      refine I.setFirst hj hi hba (hba.follow ⟨rfl, rfl, rfl⟩ (Or.inr (Or.inr rfl)) ?_)
      have hfirst := hba.first
      unfold ForwardHalf.FirstOK at hfirst ⊢
      split_ifs at hfirst ⊢
      · exact ⟨rfl, hfirst.2⟩
      · exact hidle hfirst

/-- **A step of the expiry goroutine once its timer has fired.** -/
theorem matchInv_window (I : s.MatchInv) (hi : heap s.halves i = some a)
    (hstep : s.windowStep i a = some s') : s'.MatchInv := by
  -- past the critical section the half has expired
  have hexpired : a.expiry = some .setTimedOut ∨ a.expiry = some .closing →
      a.fate = .expired ∧ a.Elapsed := by
    intro hx
    have hok := I.halves.party i a hi
    cases hf : a.fate with
    | parked =>
      rcases (hok.parked hf).2.window.1 with h | h <;> rw [h] at hx <;>
        rcases hx with hx | hx <;> cases hx
    | expired => exact ⟨rfl, (hok.expired hf).2⟩
    | matchedWith q =>
      obtain ⟨-, b, hb, hab | hab⟩ := hok.matched hf
      · rw [hab.windows.1] at hx
        rcases hx with hx | hx <;> cases hx
      · rcases hab.windows.2 with h | h | h <;> rw [h] at hx <;> rcases hx with hx | hx <;> cases hx
  unfold windowStep at hstep
  split at hstep
  · rename_i hfired
    split_ifs at hstep with hpend
    · cases hstep
      rcases first_of_window I hi (Or.inr hfired) with ⟨-, hwait, -⟩ | ⟨j, b, -, -, hleft⟩
      · refine ⟨?_, I.calm⟩
        show forwardProtocol.Inv (heap (s.modifyHalf i _).halves) _
        rw [heap_modify hi]
        exact I.halves.discard hi hpend rfl rfl (Or.inl ⟨rfl, hwait.window.2, hwait.idle⟩)
      · exact absurd hpend hleft
    · cases hstep
      refine matchInv_select I hi (Or.inr hfired) (fun hf => ?_) (Or.inr rfl)
      exact absurd ((I.halves.party i a hi).parked hf).1 hpend
  · rename_i hset
    cases hstep
    obtain ⟨hf, hel⟩ := hexpired (Or.inl hset)
    rcases hel with ⟨-, -, hidle⟩ | ⟨h, -⟩ | ⟨h, -⟩
    · exact I.setElapsed hi hf ⟨rfl, rfl⟩ (Or.inr (Or.inl ⟨rfl, rfl, hidle⟩))
    · cases hset.symm.trans h
    · cases hset.symm.trans h
  · rename_i hclosing
    obtain ⟨hf, hel⟩ := hexpired (Or.inr hclosing)
    rcases hel with ⟨h, -⟩ | ⟨-, htime, hidle⟩ | ⟨h, -⟩
    · cases hclosing.symm.trans h
    · rw [hidle.2.2] at hstep
      cases hstep
      exact I.setElapsed hi hf ⟨rfl, rfl⟩
        (Or.inr (Or.inr ⟨rfl, htime, rfl, Or.inl ⟨hidle.1, hidle.2.1⟩⟩))
    · cases hclosing.symm.trans h
  · cases hstep

/-- The handler of an opened stream leaves the halves alone. -/
theorem openStep_eq {k : ℕ} {o : ForwardOpen} (hstep : s.openStep cfg k now o = some s') :
    s'.halves = s.halves ∧ s'.pending = s.pending ∧ s'.panicked = s.panicked
      ∧ s'.granted = s.granted ∧ s'.successors = s.successors := by
  unfold openStep at hstep
  cases hpc : o.pc <;> rw [hpc] at hstep <;> dsimp only at hstep
  case returned => cases hstep
  case allocConsumer =>
    obtain ⟨r, hr, rfl⟩ := Option.map_eq_some_iff.mp hstep
    obtain ⟨relay, -, -, heq⟩ := allocate_eq hr
    rw [heq]
    exact ⟨rfl, rfl, rfl, rfl, rfl⟩
  case allocProvider =>
    obtain ⟨r, hr, rfl⟩ := Option.map_eq_some_iff.mp hstep
    obtain ⟨relay, -, -, heq⟩ := allocate_eq hr
    rw [heq]
    exact ⟨rfl, rfl, rfl, rfl, rfl⟩
  case granted =>
    obtain ⟨r, hr, rfl⟩ := Option.map_eq_some_iff.mp hstep
    unfold forget at hr
    obtain ⟨relay, -, rfl⟩ := Option.map_eq_some_iff.mp hr
    exact ⟨rfl, rfl, rfl, rfl, rfl⟩
  case forgetConsumer =>
    obtain ⟨r, hr, rfl⟩ := Option.map_eq_some_iff.mp hstep
    unfold forget at hr
    obtain ⟨relay, -, rfl⟩ := Option.map_eq_some_iff.mp hr
    exact ⟨rfl, rfl, rfl, rfl, rfl⟩

/-- **Every step keeps the protocol, and none panics.** -/
theorem matchInv_step {e : ForwardEvent} (I : s.MatchInv) (hstep : s.step cfg e = some s') :
    s'.MatchInv := by
  have hcalm : ¬ s.panicked = true := by
    rw [I.calm]
    exact Bool.false_ne_true
  unfold step at hstep
  rw [if_neg hcalm] at hstep
  cases e with
  | relay e =>
    dsimp only at hstep
    split_ifs at hstep
    obtain ⟨r, -, rfl⟩ := Option.map_eq_some_iff.mp hstep
    exact I.congr ⟨rfl, rfl, rfl⟩
  | setSuccessors endpoints =>
    cases hstep
    exact I.congr ⟨rfl, rfl, rfl⟩
  | submit ac id =>
    obtain ⟨link, -, hstep⟩ := Option.bind_eq_some_iff.mp hstep
    split_ifs at hstep
    cases hstep
    exact matchInv_submit I ac link.uri id
  | driver i now =>
    obtain ⟨a, hi, hstep⟩ := Option.bind_eq_some_iff.mp hstep
    exact matchInv_driver I hi hstep
  | windowRecv i =>
    obtain ⟨a, hi, hstep⟩ := Option.bind_eq_some_iff.mp hstep
    exact matchInv_windowRecv I hi hstep
  | timerFire i =>
    obtain ⟨a, hi, hstep⟩ := Option.bind_eq_some_iff.mp hstep
    unfold timerFire at hstep
    split_ifs at hstep with hsel
    cases hstep
    exact matchInv_select I hi (Or.inl hsel) (fun _ => rfl) (Or.inl rfl)
  | window i =>
    obtain ⟨a, hi, hstep⟩ := Option.bind_eq_some_iff.mp hstep
    exact matchInv_window I hi hstep
  | openForward caller provider =>
    obtain ⟨link, -, hstep⟩ := Option.bind_eq_some_iff.mp hstep
    obtain ⟨j, -, hstep⟩ := Option.bind_eq_some_iff.mp hstep
    obtain ⟨provAC, -, hstep⟩ := Option.bind_eq_some_iff.mp hstep
    split_ifs at hstep
    cases hstep
    exact I.congr ⟨rfl, rfl, rfl⟩
  | openStep k now =>
    obtain ⟨o, -, hstep⟩ := Option.bind_eq_some_iff.mp hstep
    obtain ⟨hhalves, hpend, hcalm, -⟩ := openStep_eq hstep
    exact I.congr ⟨hhalves, hpend, hcalm⟩

/-- The protocol is kept in every reachable state. -/
theorem matchInv_of_reachable {idleTTL pendingTTL start : Time}
    (hs : (forwardMachine cfg idleTTL pendingTTL start).Reachable s) : s.MatchInv := by
  refine hs.invariant ⟨?_, rfl⟩ (fun _ I hstep => matchInv_step I hstep)
  exact forwardProtocol.inv_empty

/-! ## What a step does to the relay -/

/-- The next step of the driver at `i` issues an allocation to `uri`. -/
def DriverAllocates (s : ForwardState) (i : ℕ) (uri : AgentURI) : Prop :=
  ∃ a, s.halves[i]? = some a ∧ ((∃ p, a.driver = .allocSelf p ∧ uri = a.agentURI)
    ∨ ∃ p x b, a.driver = .allocPeer p x ∧ s.halves[p]? = some b ∧ uri = b.agentURI)

/-- The next step of the opened stream `k` issues `id` to `uri`, and its handler
goes on at `pc`. -/
def OpenAllocates (k : ℕ) (o : ForwardOpen) (uri : AgentURI) (id : UInt32) (grantee : Grantee)
    (pc : OpenPC) : Prop :=
  (o.pc = .allocConsumer ∧ uri = o.callerURI ∧ grantee = .consumer k ∧ pc = .allocProvider id)
    ∨ ∃ c, o.pc = .allocProvider c ∧ uri = o.providerURI ∧ grantee = .provider k
      ∧ pc = .granted c id

/-- The next step of an opened stream releases `id`, and its handler goes on at
`pc`. -/
def OpenForgets (o : ForwardOpen) (id : UInt32) (pc : OpenPC) : Prop :=
  (∃ c, o.pc = .granted c id ∧ pc = .forgetConsumer c)
    ∨ (o.pc = .forgetConsumer id ∧ pc = .returned)

/-- **What a step does to the relay**, to the issued allocations and to the
opened streams. -/
inductive RelayMove (cfg : ForwardConfig) (s : ForwardState) : ForwardEvent → ForwardState → Prop
  | still {e : ForwardEvent} {s' : ForwardState} (hrelay : s'.relay = s.relay)
      (hissued : s'.issued = s.issued) (hopens : s'.opens = s.opens) : RelayMove cfg s e s'
  | own {e : RelayEvent} {s' : ForwardState} (hown : e.isOwn = true)
      (hrelay : s.relay.step cfg.toRelayConfig e = some s'.relay)
      (hissued : s'.issued = s.issued) (hopens : s'.opens = s.opens) : RelayMove cfg s (.relay e) s'
  | opened {caller : ℕ} {provider : GoString} {o : ForwardOpen} {s' : ForwardState}
      (hpc : o.pc = .allocConsumer) (hrelay : s'.relay = s.relay)
      (hissued : s'.issued = s.issued) (hopens : s'.opens = s.opens ++ [o]) :
      RelayMove cfg s (.openForward caller provider) s'
  | driver {i : ℕ} {now : Time} {uri : AgentURI} {grantee : Grantee} {s' : ForwardState}
      (halloc : s.DriverAllocates i uri)
      (hgrantee : grantee = .driverSelf i ∨ grantee = .driverPeer i)
      (hrelay : s.relay.step cfg.toRelayConfig (.plane (.allocate uri.val now)) = some s'.relay)
      (hissued : s'.issued
        = s.issued ++ [(Plane.nextAllocID s.relay.forward.plane.nextID, grantee)])
      (hopens : s'.opens = s.opens) : RelayMove cfg s (.driver i now) s'
  | openAlloc {k : ℕ} {now : Time} {o : ForwardOpen} {uri : AgentURI} {grantee : Grantee}
      {pc : OpenPC} {s' : ForwardState} (hk : s.opens[k]? = some o)
      (halloc : OpenAllocates k o uri (Plane.nextAllocID s.relay.forward.plane.nextID) grantee pc)
      (hrelay : s.relay.step cfg.toRelayConfig (.plane (.allocate uri.val now)) = some s'.relay)
      (hissued : s'.issued
        = s.issued ++ [(Plane.nextAllocID s.relay.forward.plane.nextID, grantee)])
      (hopens : s'.opens = s.opens.modify k (fun o => { o with pc := pc })) :
      RelayMove cfg s (.openStep k now) s'
  | openForget {k : ℕ} {now : Time} {o : ForwardOpen} {id : UInt32} {pc : OpenPC}
      {s' : ForwardState} (hk : s.opens[k]? = some o) (hforget : OpenForgets o id pc)
      (hrelay : s.relay.step cfg.toRelayConfig (.plane (.forget id)) = some s'.relay)
      (hissued : s'.issued = s.issued)
      (hopens : s'.opens = s.opens.modify k (fun o => { o with pc := pc })) :
      RelayMove cfg s (.openStep k now) s'

namespace RelayMove

theorem afterChan {β : Type} {r : ChanResult β} {k : β → ForwardState} {e : ForwardEvent}
    (h : s.afterChan r k = some s')
    (hk : ∀ m, (k m).relay = s.relay ∧ (k m).issued = s.issued ∧ (k m).opens = s.opens) :
    RelayMove cfg s e s' :=
  ChanResult.andThen_rule h (.still rfl rfl rfl) fun m =>
    .still (hk m).1 (hk m).2.1 (hk m).2.2

theorem of_driverStep (hi : s.halves[i]? = some a) (hstep : s.driverStep cfg i now a = some s') :
    RelayMove cfg s (.driver i now) s' := by
  unfold driverStep at hstep
  cases hh : a.driver <;> rw [hh] at hstep <;> dsimp only at hstep
  case sendSelf => exact afterChan hstep (fun _ => ⟨rfl, rfl, rfl⟩)
  case closePeer =>
    obtain ⟨peer, -, hstep⟩ := Option.bind_eq_some_iff.mp hstep
    exact afterChan hstep (fun _ => ⟨rfl, rfl, rfl⟩)
  case recv => exact afterChan hstep (fun _ => ⟨rfl, rfl, rfl⟩)
  case resolve =>
    split at hstep
    · cases hstep
      exact .still rfl rfl rfl
    · cases hstep
      exact .still rfl rfl rfl
  case allocSelf q =>
    obtain ⟨r, hr, rfl⟩ := Option.map_eq_some_iff.mp hstep
    unfold allocate at hr
    obtain ⟨relay, hrelay, rfl⟩ := Option.map_eq_some_iff.mp hr
    exact .driver ⟨a, hi, Or.inl ⟨q, hh, rfl⟩⟩ (Or.inl rfl) hrelay rfl rfl
  case allocPeer q x =>
    obtain ⟨peer, hpeer, hstep⟩ := Option.bind_eq_some_iff.mp hstep
    obtain ⟨r, hr, rfl⟩ := Option.map_eq_some_iff.mp hstep
    unfold allocate at hr
    obtain ⟨relay, hrelay, rfl⟩ := Option.map_eq_some_iff.mp hr
    exact .driver ⟨a, hi, Or.inr ⟨q, x, peer, hh, hpeer, rfl⟩⟩ (Or.inr rfl) hrelay rfl rfl
  case successors =>
    cases hstep
    exact .still rfl rfl rfl
  case writeSelf =>
    cases hstep
    exact .still rfl rfl rfl
  case writePeer =>
    obtain ⟨peer, -, hstep⟩ := Option.bind_eq_some_iff.mp hstep
    cases hstep
    exact .still rfl rfl rfl
  case granted => cases hstep
  case returned => cases hstep

theorem of_windowStep {e : ForwardEvent} (hstep : s.windowStep i a = some s') :
    RelayMove cfg s e s' := by
  unfold windowStep at hstep
  split at hstep
  · split_ifs at hstep
    · cases hstep
      exact .still rfl rfl rfl
    · cases hstep
      exact .still rfl rfl rfl
  · cases hstep
    exact .still rfl rfl rfl
  · exact afterChan hstep (fun _ => ⟨rfl, rfl, rfl⟩)
  · cases hstep

theorem of_openStep {k : ℕ} {o : ForwardOpen} (hk : s.opens[k]? = some o)
    (hstep : s.openStep cfg k now o = some s') : RelayMove cfg s (.openStep k now) s' := by
  unfold ForwardState.openStep at hstep
  cases hpc : o.pc <;> rw [hpc] at hstep <;> dsimp only at hstep
  case allocConsumer =>
    obtain ⟨r, hr, rfl⟩ := Option.map_eq_some_iff.mp hstep
    unfold allocate at hr
    obtain ⟨relay, hrelay, rfl⟩ := Option.map_eq_some_iff.mp hr
    exact .openAlloc hk (Or.inl ⟨hpc, rfl, rfl, rfl⟩) hrelay rfl rfl
  case allocProvider c =>
    obtain ⟨r, hr, rfl⟩ := Option.map_eq_some_iff.mp hstep
    unfold allocate at hr
    obtain ⟨relay, hrelay, rfl⟩ := Option.map_eq_some_iff.mp hr
    exact .openAlloc hk (Or.inr ⟨c, hpc, rfl, rfl, rfl⟩) hrelay rfl rfl
  case granted c d =>
    obtain ⟨r, hr, rfl⟩ := Option.map_eq_some_iff.mp hstep
    unfold forget at hr
    obtain ⟨relay, hrelay, rfl⟩ := Option.map_eq_some_iff.mp hr
    exact .openForget hk (Or.inl ⟨c, hpc, rfl⟩) hrelay rfl rfl
  case forgetConsumer c =>
    obtain ⟨r, hr, rfl⟩ := Option.map_eq_some_iff.mp hstep
    unfold forget at hr
    obtain ⟨relay, hrelay, rfl⟩ := Option.map_eq_some_iff.mp hr
    exact .openForget hk (Or.inr ⟨hpc, rfl⟩) hrelay rfl rfl
  case returned => cases hstep

end RelayMove

/-- **Every step is one of these.** -/
theorem relayMove_of_step {e : ForwardEvent} (hstep : s.step cfg e = some s') :
    RelayMove cfg s e s' := by
  unfold step at hstep
  split_ifs at hstep
  cases e with
  | relay e =>
    dsimp only at hstep
    split_ifs at hstep with hown
    obtain ⟨r, hr, rfl⟩ := Option.map_eq_some_iff.mp hstep
    exact .own hown hr rfl rfl
  | setSuccessors endpoints =>
    cases hstep
    exact .still rfl rfl rfl
  | submit ac id =>
    obtain ⟨link, -, hstep⟩ := Option.bind_eq_some_iff.mp hstep
    split_ifs at hstep
    cases hstep
    unfold submit
    cases s.pending.get id with
    | none => exact .still rfl rfl rfl
    | some peer => exact .still rfl rfl rfl
  | driver i now =>
    obtain ⟨a, hi, hstep⟩ := Option.bind_eq_some_iff.mp hstep
    exact .of_driverStep hi hstep
  | windowRecv i =>
    obtain ⟨a, -, hstep⟩ := Option.bind_eq_some_iff.mp hstep
    unfold windowRecv at hstep
    split_ifs at hstep
    exact .afterChan hstep (fun _ => ⟨rfl, rfl, rfl⟩)
  | timerFire i =>
    obtain ⟨a, -, hstep⟩ := Option.bind_eq_some_iff.mp hstep
    unfold timerFire at hstep
    split_ifs at hstep
    cases hstep
    exact .still rfl rfl rfl
  | window i =>
    obtain ⟨a, -, hstep⟩ := Option.bind_eq_some_iff.mp hstep
    exact .of_windowStep hstep
  | openForward caller provider =>
    obtain ⟨link, -, hstep⟩ := Option.bind_eq_some_iff.mp hstep
    obtain ⟨j, -, hstep⟩ := Option.bind_eq_some_iff.mp hstep
    obtain ⟨provAC, -, hstep⟩ := Option.bind_eq_some_iff.mp hstep
    split_ifs at hstep
    cases hstep
    exact .opened rfl rfl rfl rfl
  | openStep k now =>
    obtain ⟨o, hk, hstep⟩ := Option.bind_eq_some_iff.mp hstep
    exact .of_openStep hk hstep

/-- A connection is never forgotten. -/
theorem links_length_step {e : ForwardEvent} (hstep : s.step cfg e = some s') :
    s'.relay.links.length = s.relay.links.length + e.registers := by
  cases relayMove_of_step hstep with
  | still hrelay =>
    cases e with
    | relay re =>
      unfold step at hstep
      split_ifs at hstep
      dsimp only at hstep
      split_ifs at hstep
      obtain ⟨r, hr, rfl⟩ := Option.map_eq_some_iff.mp hstep
      exact RelayState.links_length_step hr
    | _ => exact congrArg (fun r => r.links.length) hrelay
  | opened _ hrelay => exact congrArg (fun r => r.links.length) hrelay
  | own _ hrelay | driver _ _ hrelay | openAlloc _ _ hrelay | openForget _ _ hrelay =>
    exact RelayState.links_length_step hrelay

/-! ## What a step does to the successor list -/

theorem successors_afterChan {β : Type} {r : ChanResult β} {k : β → ForwardState}
    (h : s.afterChan r k = some s') (hk : ∀ m, (k m).successors = s.successors) :
    s'.successors = s.successors :=
  ChanResult.andThen_rule (P := fun s' => s'.successors = s.successors) h rfl hk

theorem successors_driverStep (hstep : s.driverStep cfg i now a = some s') :
    s'.successors = s.successors := by
  have hcaseAlloc : ∀ {uri : AgentURI} {grantee : Grantee} {r : ForwardState × UInt32},
      s.allocate cfg uri now grantee = some r → r.fst.successors = s.successors := by
    intro uri grantee r hr
    obtain ⟨relay, -, -, heq⟩ := allocate_eq hr
    rw [heq]
  unfold driverStep at hstep
  cases hh : a.driver <;> rw [hh] at hstep <;> dsimp only at hstep
  case sendSelf => exact successors_afterChan hstep (fun _ => rfl)
  case closePeer =>
    obtain ⟨peer, -, hstep⟩ := Option.bind_eq_some_iff.mp hstep
    exact successors_afterChan hstep (fun _ => rfl)
  case recv => exact successors_afterChan hstep (fun _ => rfl)
  case resolve =>
    split at hstep
    · cases hstep
      rfl
    · cases hstep
      rfl
  case allocSelf =>
    obtain ⟨r, hr, rfl⟩ := Option.map_eq_some_iff.mp hstep
    exact hcaseAlloc hr
  case allocPeer =>
    obtain ⟨peer, -, hstep⟩ := Option.bind_eq_some_iff.mp hstep
    obtain ⟨r, hr, rfl⟩ := Option.map_eq_some_iff.mp hstep
    exact hcaseAlloc hr
  case writePeer =>
    obtain ⟨peer, -, hstep⟩ := Option.bind_eq_some_iff.mp hstep
    cases hstep
    rfl
  all_goals
    cases hstep
    try rfl

/-- Only `SetSuccessors` changes the list. -/
theorem successors_step {e : ForwardEvent} (hne : ∀ l, e ≠ .setSuccessors l)
    (hstep : s.step cfg e = some s') : s'.successors = s.successors := by
  unfold step at hstep
  split_ifs at hstep
  cases e with
  | relay re =>
    dsimp only at hstep
    split_ifs at hstep
    obtain ⟨r, -, rfl⟩ := Option.map_eq_some_iff.mp hstep
    rfl
  | submit ac id =>
    obtain ⟨link, -, hstep⟩ := Option.bind_eq_some_iff.mp hstep
    split_ifs at hstep
    cases hstep
    unfold submit
    dsimp only
    split <;> rfl
  | driver i now =>
    obtain ⟨a, -, hstep⟩ := Option.bind_eq_some_iff.mp hstep
    exact successors_driverStep hstep
  | windowRecv i =>
    obtain ⟨a, -, hstep⟩ := Option.bind_eq_some_iff.mp hstep
    unfold windowRecv at hstep
    split_ifs at hstep
    exact successors_afterChan hstep (fun _ => rfl)
  | timerFire i =>
    obtain ⟨a, -, hstep⟩ := Option.bind_eq_some_iff.mp hstep
    unfold timerFire at hstep
    split_ifs at hstep
    cases hstep
    rfl
  | window i =>
    obtain ⟨a, -, hstep⟩ := Option.bind_eq_some_iff.mp hstep
    unfold windowStep at hstep
    split at hstep
    · split_ifs at hstep
      · cases hstep
        rfl
      · cases hstep
        rfl
    · cases hstep
      rfl
    · exact successors_afterChan hstep (fun _ => rfl)
    · cases hstep
  | setSuccessors endpoints => exact absurd rfl (hne endpoints)
  | openForward caller provider =>
    obtain ⟨link, -, hstep⟩ := Option.bind_eq_some_iff.mp hstep
    obtain ⟨k, -, hstep⟩ := Option.bind_eq_some_iff.mp hstep
    obtain ⟨provAC, -, hstep⟩ := Option.bind_eq_some_iff.mp hstep
    split_ifs at hstep
    cases hstep
    rfl
  | openStep k now =>
    obtain ⟨o, -, hstep⟩ := Option.bind_eq_some_iff.mp hstep
    exact (openStep_eq hstep).2.2.2.2

end ForwardState
