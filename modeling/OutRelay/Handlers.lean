import OutRelay.Frames
import OutRelay.PairTable
import OutRelay.Policy
import OutRelay.Pool
import OutRelay.Prog

/-!
# The stream handlers

`handleConsumerStream` is what the relay does with a stream that an agent
opens: it reads `OPEN_STREAM`, checks the policy of the caller, resolves the
target, checks the policy of the callee, opens a stream to the provider and,
once the provider accepts, joins the two – or, where the provider is on
another relay, forwards the stream there. `handleForwardedStream` is what the
other relay does.

Both are procedures over one interface. `EdgeOp` lists what a handler asks of
the rest of the relay and of the network: frames, the policy engine, the
controller, the registry, the pair table, the plane, the pool. Every answer
that these can give is a branch of the procedure, so a statement about its
paths covers every behaviour of the policy, the controller, the agents and
the peer.

The code below follows the source function by function; the long body of
`handleConsumerStream` is cut at its phases. An early `return` is a branch
that ends, and `defer` stands where the source has it.
-/

/-- `AgentConn`: the number tells connections apart, as the pointer does. -/
structure AgentConn where
  id : ℕ
  uri : GoString
  deriving DecidableEq

/-- The streams a handler works on: the one the agent opened, one to a
provider, and one to or from a peer relay. -/
inductive StreamRef
  | consumer
  | provider (ac : AgentConn)
  | peer
  deriving DecidableEq

/-- A provider in the controller's answer to `Resolve`. -/
structure ProviderRow where
  agentURI : GoString
  relayID : GoString
  relayEndpoint : GoString
  deriving DecidableEq

/-- `registry.Remote`. -/
structure Remote where
  relayID : GoString
  endpoint : GoString
  agentURI : GoString
  deriving DecidableEq

/-- The errors of `Registry.Resolve`. -/
inductive ResolveError
  | noTenant
  | rpcFailed (err : GoString)
  | serviceNotFound
  | providerRemote (remote : Remote)
  deriving DecidableEq

/-- What a stream handler asks of the relay and of the network. -/
inductive EdgeOp
  | parseFrame (st : StreamRef)
  | writeFrame (st : StreamRef) (m : Message)
  | closeStream (st : StreamRef)
  | writeCtrl (ac : AgentConn) (m : Message)
  | openAgentStream (ac : AgentConn)
  | evaluate (caller target method : GoString)
  | recordAudit (caller target method : GoString) (r : Result)
  | resolveRPC (tenant name callerRegion : GoString)
  | localAgent (uri : GoString)
  | lookupAgent (uri : GoString)
  | successors
  | poolGet (relayID endpoint : GoString)
  | poolDrop (relayID : GoString)
  | openPeerStream
  | recordPair (streamID : UInt64) (p : StreamPair)
  | forgetPair (streamID : UInt64)
  | enforceRequiredPromotion (streamID : UInt64)
  | cancelEnforcement (streamID : UInt64)
  | allocate (uri : GoString)
  | forget (id : UInt32)
  | forwardEndpoint
  | drain (a b : StreamRef)
  | splice (a b : StreamRef)
  | resumeHalf (frame : Frame) (callerURI : GoString)

/-- The answers. -/
@[reducible] def EdgeOp.Ans : EdgeOp → Type
  | .parseFrame _ => Except GoString Frame
  | .writeFrame _ _ | .writeCtrl _ _ => Except GoString Unit
  | .openAgentStream _ | .openPeerStream => Except GoString Unit
  | .poolGet _ _ => Except GoString Unit
  | .evaluate _ _ _ => Result
  | .resolveRPC _ _ _ => Except GoString (List ProviderRow)
  | .localAgent _ | .lookupAgent _ => Option AgentConn
  | .successors => List GoString
  | .recordPair _ _ => Bool
  | .allocate _ => UInt32
  | .forwardEndpoint => GoString
  | .splice _ _ => ℕ
  | _ => Unit

/-- The interface of the handlers. -/
abbrev edge : Interface := ⟨EdgeOp, EdgeOp.Ans⟩

/-- An operation of a handler, with its answer. -/
abbrev EdgeEvent := edge.Event

/-- A stream handler. -/
abbrev Handler (α : Type) := Prog edge α

/-- The parts of `Server` that the handlers test: a policy engine, a pool and a
table of migrated streams may be missing, as the forwarding plane may. -/
structure EdgeConfig extends RelayConfig where
  region : GoString
  policy : Bool
  pool : Bool
  migrated : Bool

namespace Handler

/-- Perform one operation. -/
abbrev perform (o : EdgeOp) : Handler o.Ans := Prog.perform (E := edge) o

/-- `defer d`, over the rest of the block. -/
def defer (d : Handler Unit) (body : Handler Unit) : Handler Unit := do
  body
  d

/-! ## Helpers -/

/-- `writeStreamReject`. -/
def writeStreamReject (st : StreamRef) (code : UInt32) (reason : GoString) : Handler Unit := do
  let _ ← perform (.writeFrame st (.streamReject code reason 0))

/-- `rejectConsumer`: the reject on the data stream, and its mirror on the
agent's control stream. -/
def rejectConsumer (caller : Option AgentConn) (st : StreamRef) (streamID : UInt64)
    (code : UInt32) (reason : GoString) : Handler Unit := do
  writeStreamReject st code reason
  match caller with
  | none => pure ()
  | some caller =>
    if streamID = 0 then pure ()
    else
      let _ ← perform (.writeCtrl caller (.streamReject code reason streamID))

/-- `AgentConn.OpenIncoming`: a stream to the agent, and `INCOMING_STREAM` on
it. -/
def openIncoming (ac : AgentConn) (service method caller : GoString) (streamID : UInt64) :
    Handler (Except GoString Unit) := do
  match ← perform (.openAgentStream ac) with
  | .error err => pure (.error err)
  | .ok () =>
    let resumeRelays ← perform .successors
    match ← perform (.writeFrame (.provider ac)
        (.incomingStream ⟨service, method, caller, streamID, resumeRelays⟩)) with
    | .error err =>
      perform (.closeStream (.provider ac))
      pure (.error err)
    | .ok () => pure (.ok ())

/-- `Registry.Resolve`: the controller's first provider, if it is on this relay
and connected. -/
def resolve (cfg : EdgeConfig) (callerURI name : GoString) :
    Handler (Except ResolveError AgentConn) := do
  if cfg.tenantOf callerURI = [] then pure (.error .noTenant)
  else
    match ← perform (.resolveRPC (cfg.tenantOf callerURI) name cfg.region) with
    | .error err => pure (.error (.rpcFailed err))
    | .ok [] => pure (.error .serviceNotFound)
    | .ok (prov :: _) =>
      if prov.relayID ≠ cfg.relayID then
        pure (.error (.providerRemote ⟨prov.relayID, prov.relayEndpoint, prov.agentURI⟩))
      else
        match ← perform (.localAgent prov.agentURI) with
        | none => pure (.error .serviceNotFound)
        | some p => pure (.ok p)

/-! ## Streams between relays -/

/-- `intra.ForwardStream`. The stream id is not among what it sends. -/
def forwardStream (target method callerURI : GoString) : Handler (Except ForwardError Unit) := do
  match ← perform .openPeerStream with
  | .error err => pure (.error (.openPeerStream err))
  | .ok () =>
    match ← perform (.writeFrame .peer (.forwardStream ⟨target, method, callerURI, 0, []⟩)) with
    | .error err =>
      perform (.closeStream .peer)
      pure (.error (.writeForwardStream err))
    | .ok () =>
      match ← perform (.parseFrame .peer) with
      | .error err =>
        perform (.closeStream .peer)
        pure (.error (.readPeerReply err))
      | .ok .streamAccept => pure (.ok ())
      | .ok (.streamReject code reason) =>
        perform (.closeStream .peer)
        pure (.error (.peerRejected code reason))
      | .ok frame =>
        perform (.closeStream .peer)
        pure (.error (.unexpectedFrame frame.type))

/-- `forwardToPeer`. -/
def forwardToPeer (caller : AgentConn) (o : OpenStream) (remote : Remote) : Handler Unit := do
  match ← perform (.poolGet remote.relayID remote.endpoint) with
  | .error _ => rejectConsumer caller .consumer o.streamID 502 (go "peer relay unreachable")
  | .ok () =>
    match ← forwardStream o.targetService o.method caller.uri with
    | .error _ =>
      perform (.poolDrop remote.relayID)
      rejectConsumer caller .consumer o.streamID 502 (go "peer relay forward failed")
    | .ok () =>
      defer (perform (.closeStream .peer)) do
        let _ ← perform (.splice .consumer .peer)

/-- The end of `handleForwardedStream`: the provider's answer goes to the peer,
and an acceptance joins the two streams. -/
def answerPeer (prov : AgentConn) : Handler Unit := do
  match ← perform (.parseFrame (.provider prov)) with
  | .ok .streamAccept =>
    match ← perform (.writeFrame .peer .streamAccept) with
    | .error _ => pure ()
    | .ok () =>
      let _ ← perform (.splice .peer (.provider prov))
  | _ => writeStreamReject .peer 503 (go "provider rejected")

/-- `handleForwardedStream` from `Resolve` on. The policy is not consulted. -/
def dispatchForwarded (cfg : EdgeConfig) (m : IncomingStream) : Handler Unit := do
  match ← resolve cfg m.sourceAgentURI m.targetService with
  | .error _ => writeStreamReject .peer 503 (go "no local provider for forwarded stream")
  | .ok prov =>
    match ← openIncoming prov m.targetService m.method m.sourceAgentURI m.streamID with
    | .error _ => writeStreamReject .peer 502 (go "provider open failed")
    | .ok () => defer (perform (.closeStream (.provider prov))) (answerPeer prov)

/-- `handleForwardedStream`: dispatch a stream that a peer relay has sent. -/
def handleForwardedStream (cfg : EdgeConfig) : Handler Unit :=
  defer (perform (.closeStream .peer)) do
    match ← perform (.parseFrame .peer) with
    | .ok (.forwardStream (some m)) => dispatchForwarded cfg m
    | _ => pure ()

/-! ## Streams of an agent -/

/-- The forwarding branch: two allocations, one grant to each agent, and a wait
until either data stream ends. -/
def grantForward (caller prov : AgentConn) (o : OpenStream) : Handler Unit := do
  match ← perform (.lookupAgent prov.uri) with
  | none =>
    rejectConsumer caller .consumer o.streamID 502
      (go "forward: provider control channel unavailable")
  | some provAC =>
    let consumerAlloc ← perform (.allocate caller.uri)
    let providerAlloc ← perform (.allocate provAC.uri)
    defer (perform (.forget consumerAlloc)) <| defer (perform (.forget providerAlloc)) do
    let fwdEndpoint ← perform .forwardEndpoint
    let resumeRelays ← perform .successors
    match ← perform (.writeCtrl caller (.allocGranted
        ⟨o.streamID, consumerAlloc, providerAlloc, fwdEndpoint, resumeRelays⟩)) with
    | .error _ => pure ()
    | .ok () =>
      match ← perform (.writeCtrl provAC (.allocGranted
          ⟨o.streamID, providerAlloc, consumerAlloc, fwdEndpoint, resumeRelays⟩)) with
      | .error _ => pure ()
      | .ok () => perform (.drain .consumer (.provider prov))

/-- A control frame to the provider, if it has a control channel. -/
def notify (provAC : Option AgentConn) (m : Message) : Handler Unit :=
  match provAC with
  | none => pure ()
  | some ac => do
    let _ ← perform (.writeCtrl ac m)

/-- The splice branch: `STREAM_READY` to both agents, and the splice. -/
def spliceStreams (caller prov : AgentConn) (o : OpenStream) : Handler Unit := do
  let provAC ← perform (.lookupAgent prov.uri)
  let resumeRelays ← perform .successors
  let _ ← perform (.writeCtrl caller (.streamReady o.streamID resumeRelays))
  notify provAC (.streamReady o.streamID resumeRelays)
  let _ ← perform (.splice .consumer (.provider prov))

/-- Wait for `STREAM_ACCEPT` from the provider. -/
def awaitAccept (cfg : EdgeConfig) (caller prov : AgentConn) (o : OpenStream)
    (relayMode : RelayMode) : Handler Unit := do
  match ← perform (.parseFrame (.provider prov)) with
  | .error _ => pure ()
  | .ok .streamAccept =>
    if relayMode = .forward ∧ cfg.forward = true then grantForward caller prov o
    else spliceStreams caller prov o
  | .ok (.streamReject _ _) =>
    rejectConsumer caller .consumer o.streamID 503 (go "provider rejected")
  | .ok _ => pure ()

/-- From `OpenIncoming` on: the provider's stream, the row of the pair table,
and the enforcement of a required promotion. -/
def dispatchStream (cfg : EdgeConfig) (caller prov : AgentConn) (o : OpenStream)
    (p2pMode : P2PMode) (relayMode : RelayMode) : Handler Unit := do
  match ← openIncoming prov o.targetService o.method caller.uri o.streamID with
  | .error _ =>
    rejectConsumer caller .consumer o.streamID 502 (go "provider stream open failed")
  | .ok () =>
    defer (perform (.closeStream (.provider prov))) do
    if ← perform (.recordPair o.streamID ⟨caller.uri, prov.uri⟩) then
      defer (perform (.forgetPair o.streamID)) do
      if p2pMode = .required ∧ cfg.migrated = true then
        defer (perform (.cancelEnforcement o.streamID)) do
        perform (.enforceRequiredPromotion o.streamID)
        awaitAccept cfg caller prov o relayMode
      else awaitAccept cfg caller prov o relayMode
    else
      rejectConsumer caller .consumer o.streamID 409 (go "stream id collision")

/-- From `Resolve` on: fork to the peer relay, or check the policy of the
callee. -/
def routeStream (cfg : EdgeConfig) (caller : AgentConn) (o : OpenStream)
    (p2pMode : P2PMode) (relayMode : RelayMode) : Handler Unit := do
  match ← resolve cfg caller.uri o.targetService with
  | .error (.providerRemote remote) =>
    if cfg.pool = false ∨ remote.endpoint = [] then
      rejectConsumer caller .consumer o.streamID 502 (go "inter-relay forwarding unavailable")
    else forwardToPeer caller o remote
  | .error _ => rejectConsumer caller .consumer o.streamID 404 (go "service not found")
  | .ok prov =>
    if cfg.policy then
      let callee ← perform (.evaluate prov.uri caller.uri o.method)
      perform (.recordAudit prov.uri caller.uri o.method callee)
      if callee.decision = .deny then
        rejectConsumer caller .consumer o.streamID 403 (go "denied (callee): " ++ callee.reason)
      else
        dispatchStream cfg caller prov o (combineP2PModes p2pMode callee.p2pMode) relayMode
    else dispatchStream cfg caller prov o p2pMode relayMode

/-- An `OPEN_STREAM` that has been decoded: check the policy of the caller
first. -/
def handleOpenStream (cfg : EdgeConfig) (caller : AgentConn) (o : OpenStream) : Handler Unit := do
  if cfg.policy then
    let dec ← perform (.evaluate caller.uri o.targetService o.method)
    perform (.recordAudit caller.uri o.targetService o.method dec)
    if dec.decision = .deny then
      rejectConsumer caller .consumer o.streamID 403 (go "denied: " ++ dec.reason)
    else routeStream cfg caller o dec.p2pMode dec.relayMode
  else routeStream cfg caller o .allowed .splice

/-- `handleConsumerStream`. -/
def handleConsumerStream (cfg : EdgeConfig) (caller : AgentConn) : Handler Unit :=
  defer (perform (.closeStream .consumer)) do
    match ← perform (.parseFrame .consumer) with
    | .error _ => pure ()
    | .ok (.streamResume m) => perform (.resumeHalf (.streamResume m) caller.uri)
    | .ok (.migrateToRelay m) => perform (.resumeHalf (.migrateToRelay m) caller.uri)
    | .ok (.openStream (some o)) => handleOpenStream cfg caller o
    | .ok _ => pure ()

/-! ## Rules

What the helpers perform, and where the paths of a stream begin. -/

section Rules

variable {A : EdgeOp → Prop}

theorem rejectConsumer_within {caller : Option AgentConn} {st : StreamRef} {streamID : UInt64}
    {code : UInt32} {reason : GoString}
    (hwrite : ∀ streamID, A (.writeFrame st (.streamReject code reason streamID)))
    (hctrl : ∀ ac, A (.writeCtrl ac (.streamReject code reason streamID))) :
    (rejectConsumer caller st streamID code reason).Within A := by
  unfold rejectConsumer writeStreamReject
  refine Prog.Within.bind (Prog.Within.bind (Prog.within_perform (hwrite 0)) fun _ =>
    Prog.within_pure) fun _ => ?_
  cases caller with
  | none => exact Prog.within_pure
  | some caller =>
    dsimp only
    split_ifs
    · exact Prog.within_pure
    · exact Prog.Within.bind (Prog.within_perform (hctrl caller)) fun _ => Prog.within_pure

theorem openIncoming_within {ac : AgentConn} {service method uri : GoString} {streamID : UInt64}
    (hopen : A (.openAgentStream ac)) (hlist : A .successors)
    (hwrite : ∀ m, A (.writeFrame (.provider ac) (.incomingStream m)))
    (hclose : A (.closeStream (.provider ac))) :
    (openIncoming ac service method uri streamID).Within A := by
  refine Prog.Within.bind (Prog.within_perform hopen) fun r => ?_
  cases r with
  | error err => exact Prog.within_pure
  | ok u =>
    refine Prog.Within.bind (Prog.within_perform hlist) fun resumeRelays => ?_
    refine Prog.Within.bind (Prog.within_perform (hwrite _)) fun r => ?_
    cases r with
    | error err =>
      exact Prog.Within.bind (Prog.within_perform hclose) fun _ => Prog.within_pure
    | ok u => exact Prog.within_pure

theorem forwardStream_within {target method uri : GoString} (hopen : A .openPeerStream)
    (hwrite : ∀ m, A (.writeFrame .peer (.forwardStream m))) (hread : A (.parseFrame .peer))
    (hclose : A (.closeStream .peer)) : (forwardStream target method uri).Within A := by
  have hfail : ∀ err, (do
      perform (.closeStream .peer)
      pure (.error err) : Handler (Except ForwardError Unit)).Within A :=
    fun err => Prog.Within.bind (Prog.within_perform hclose) fun _ => Prog.within_pure
  refine Prog.Within.bind (Prog.within_perform hopen) fun r => ?_
  cases r with
  | error err => exact Prog.within_pure
  | ok u =>
    refine Prog.Within.bind (Prog.within_perform (hwrite _)) fun r => ?_
    cases r with
    | error err => exact hfail _
    | ok u =>
      refine Prog.Within.bind (Prog.within_perform hread) fun r => ?_
      match r with
      | .ok .streamAccept => exact Prog.within_pure
      | .error err => exact hfail _
      | .ok (.streamReject code reason) => exact hfail _
      | .ok (.openStream _) | .ok (.forwardStream _) | .ok (.streamResume _)
      | .ok (.migrateToRelay _) | .ok (.other _) => exact hfail _

theorem resolve_within {cfg : EdgeConfig} {uri name : GoString}
    (hrpc : ∀ tenant name region, A (.resolveRPC tenant name region))
    (hagent : ∀ uri, A (.localAgent uri)) : (resolve cfg uri name).Within A := by
  unfold resolve
  split_ifs
  · exact Prog.within_pure
  · refine Prog.Within.bind (Prog.within_perform (hrpc _ _ _)) fun r => ?_
    match r with
    | .error err => exact Prog.within_pure
    | .ok [] => exact Prog.within_pure
    | .ok (prov :: _) =>
      dsimp only
      split_ifs
      · exact Prog.within_pure
      · refine Prog.Within.bind (Prog.within_perform (hagent _)) fun ac => ?_
        cases ac with
        | none => exact Prog.within_pure
        | some p => exact Prog.within_pure

end Rules

/-- **A stream that begins with `OPEN_STREAM`** is handled by
`handleOpenStream`, and closed. -/
theorem handleConsumerStream_all {Q : List EdgeEvent → Prop} {cfg : EdgeConfig}
    {caller : AgentConn} {o : OpenStream}
    (h : (defer (perform (.closeStream .consumer)) (handleOpenStream cfg caller o)).All
      (fun tr _ => Q (⟨.parseFrame .consumer, .ok (.openStream (some o))⟩ :: tr))) :
    (handleConsumerStream cfg caller).All (fun tr _ =>
      tr.head? = some ⟨.parseFrame .consumer, .ok (.openStream (some o))⟩ → Q tr) := by
  intro r
  by_cases hr : r = .ok (.openStream (some o))
  · subst hr
    exact Prog.All.imp h fun _ _ htr _ => htr
  · refine Prog.all_iff.mpr fun tr _ _ hhead => absurd ?_ hr
    injection Option.some.inj hhead

/-! ## A relay at work -/

/-- Bytes are spliced. -/
def isSplice : EdgeEvent → Bool
  | ⟨.splice _ _, _⟩ => true
  | _ => false

/-- An environment in which every operation succeeds: the frames that come on
each stream, the policy, the controller's answer and the agent behind every
URI are given. -/
def succeeding (frames : StreamRef → Frame) (policy : GoString → GoString → GoString → Result)
    (rows : List ProviderRow) (agent : AgentConn) : ∀ o : EdgeOp, o.Ans
  | .parseFrame st => .ok (frames st)
  | .writeFrame _ _ | .writeCtrl _ _ => .ok ()
  | .openAgentStream _ | .openPeerStream => .ok ()
  | .poolGet _ _ => .ok ()
  | .evaluate caller target method => policy caller target method
  | .resolveRPC _ _ _ => .ok rows
  | .localAgent _ | .lookupAgent _ => some agent
  | .successors => []
  | .recordPair _ _ => true
  | .allocate _ => 1
  | .forwardEndpoint => []
  | .splice _ _ => (0 : ℕ)
  | .closeStream _ | .recordAudit _ _ _ _ | .poolDrop _ | .forgetPair _
  | .enforceRequiredPromotion _ | .cancelEnforcement _ | .forget _ | .drain _ _
  | .resumeHalf _ _ => ()

end Handler

/-- The relay that `agentC` is connected to, with a policy engine and a
pool. -/
def edgeR1 : EdgeConfig where
  toRelayConfig := relayR1
  region := go "eu"
  policy := true
  pool := true
  migrated := true

/-- The relay that `agentP` is connected to. -/
def edgeR2 : EdgeConfig where
  toRelayConfig := { relayR1 with relayID := go "outrelay://acme/relay/r2" }
  region := go "eu"
  policy := true
  pool := true
  migrated := true

/-- The connection of `agentC`. -/
def connC : AgentConn := ⟨0, agentC.val⟩

/-- The connection of `agentP`. -/
def connP : AgentConn := ⟨1, agentP.val⟩

/-- `agentC` opens a stream to a service. -/
def openPayments : OpenStream := ⟨7, go "svc-payments", go "pay"⟩

/-- The frames of a stream that everyone accepts. -/
def acceptedBy : StreamRef → Frame
  | .consumer => .openStream (some openPayments)
  | _ => .streamAccept
