import OutRelay.Handlers
import OutRelay.HostPort
import OutRelay.Loop
import OutRelay.Promotion

/-!
# The goroutines of a connection

`serveConn` is what the relay does with a connection it accepts. It reads the
identity from the peer's certificate; the connection of a peer relay goes to
`servePeerRelay`, and an agent has to say `HELLO` under the same identity. Then
the connection is entered in the relay's tables, a control loop is started for
its first stream and a handler for each further one, and when no more streams
come the deferred teardown runs.

`controlLoop` reads frames from the control stream. It answers some itself
(`REGISTER`, `PING`, `OBSERVED_ADDR_QUERY`, `FORWARD_REGISTER`), hands some to
the other end of a stream (`CANDIDATE_OFFER`, `CANDIDATE_ANSWER`,
`STREAM_CHECKPOINT`) and takes note of others (`MIGRATE_TO_P2P`,
`FORWARD_RESUME`).

Both are procedures over one interface, as the stream handlers are. A control
frame is its type and the bytes of its payload: the relay passes frames on that
it does not interpret. How a payload is decoded, and how a frame is put back
into bytes, is the `Codec`, a parameter. Starting a goroutine is an operation;
what the goroutine does is a procedure of its own.
-/

/-! ## Control frames -/

/-- The frame types that `controlLoop` and `serveConn` tell apart. -/
inductive CtrlType
  | hello
  | register
  | ping
  | observedAddrQuery
  | candidateOffer
  | candidateAnswer
  | streamCheckpoint
  | migrateToP2P
  | forwardResume
  | forwardRegister
  | other (code : UInt8)
  deriving DecidableEq

/-- A frame read from a control stream. -/
structure CtrlFrame where
  type : CtrlType
  payload : List UInt8
  deriving DecidableEq

/-- `Register`. -/
structure Register where
  serviceName : GoString
  localAddr : GoString
  deriving DecidableEq

/-- `ForwardResume`. -/
structure ForwardResume where
  streamID : UInt64
  myPosition : UInt64
  peerAckPosition : UInt64
  deriving DecidableEq

/-- `ForwardRegister`. -/
structure ForwardRegister where
  allocID : UInt32
  punchNonce : List UInt8
  deriving DecidableEq

/-- **The decoding of payloads**, and `MarshalBinary`. Of a message that the relay
does not interpret only the stream id is read. -/
structure Codec where
  hello : List UInt8 → Option GoString
  register : List UInt8 → Option Register
  observedAddrQuery : List UInt8 → Option UInt64
  candidateOffer : List UInt8 → Option UInt64
  candidateAnswer : List UInt8 → Option UInt64
  streamCheckpoint : List UInt8 → Option UInt64
  migrateToP2P : List UInt8 → Option UInt64
  forwardResume : List UInt8 → Option ForwardResume
  forwardRegister : List UInt8 → Option ForwardRegister
  marshalBinary : CtrlFrame → Option (List UInt8)

/-- `orp.UnmarshalProto`: the frame has to be of the type. -/
def unmarshalProto {α : Type} (f : CtrlFrame) (type : CtrlType)
    (decode : List UInt8 → Option α) : Option α :=
  if f.type = type then decode f.payload else none

/-- A message that the relay writes on a control stream. `PONG` has an empty
`HelloAck` for its body. -/
inductive CtrlMessage
  | helloAck (successorEndpoints : List GoString)
  | pong
  | registerAck (serviceID : GoString)
  | observedAddrResp (requestID : UInt64) (ip : GoString) (port : UInt32)
  | forwardRegisterReject (allocID : UInt32) (reason : GoString)
  deriving DecidableEq

/-! ## What the goroutines ask for -/

/-- The operations of the goroutines of a connection. `writeFrame` is a plain
write on the connection's own control stream, `writeCtrl` and `writeData` are
writes under `ctrlMu`. -/
inductive ConnOp
  | peerCertificates
  | acceptStream
  | parseFrame
  | writeFrame (m : CtrlMessage)
  | writeCtrl (ac : AgentConn) (m : CtrlMessage)
  | writeData (ac : AgentConn) (data : List UInt8)
  | closeConn
  | cancelConn
  | ctxDone
  | remoteAddr
  | successors
  | registerAgent (ac : AgentConn)
  | trackAgent (ac : AgentConn)
  | untrackAgent (ac : AgentConn)
  | unregisterAgent (uri : GoString)
  | lookupAgent (uri : GoString)
  | registerServiceRPC (tenant serviceName agentURI relayID localAddr : GoString)
  | deregisterAgentRPC (tenant agentURI relayID : GoString)
  | peerOf (streamID : UInt64) (callerURI : GoString)
  | pairRow (streamID : UInt64)
  | noteMigrated (streamID : UInt64) (pair : StreamPair)
  | armPending (allocID : UInt32) (uri : GoString) (nonce : Nonce)
  | forgetAgent (uri : GoString)
  | startControlLoop (ac : AgentConn)
  | startConsumerStream (ac : AgentConn)
  | startForwardedStream
  | driveForwardResume (ac : AgentConn) (m : ForwardResume)
  deriving DecidableEq

/-- The answers. The certificates are given by their URIs. `ArmPending` may also
fail for another reason than the two it names. -/
@[reducible] def ConnOp.Ans : ConnOp → Type
  | .peerCertificates => List (List GoString)
  | .parseFrame => Except GoString CtrlFrame
  | .acceptStream | .writeFrame _ | .writeCtrl _ _ | .writeData _ _ => Except GoString Unit
  | .ctxDone => Bool
  | .remoteAddr => GoString
  | .successors => List GoString
  | .lookupAgent _ => Option AgentConn
  | .registerServiceRPC _ _ _ _ _ => Except GoString GoString
  | .deregisterAgentRPC _ _ _ => Except GoString Unit
  | .peerOf _ _ => GoString
  | .pairRow _ => Option StreamPair
  | .armPending _ _ _ => Except (Option ArmError) Unit
  | .forgetAgent _ => ℕ
  | _ => Unit

/-- The interface of the goroutines of a connection. -/
abbrev connection : Interface := ⟨ConnOp, ConnOp.Ans⟩

/-- An operation with its answer. -/
abbrev ConnEvent := connection.Event

/-- A goroutine of a connection. -/
abbrev ConnProc (α : Type) := Prog connection α

namespace ConnProc

/-- Perform one operation. -/
abbrev perform (o : ConnOp) : ConnProc o.Ans := Prog.perform (E := connection) o

/-! ## The control loop -/

/-- The errors of `Registry.RegisterService`. -/
inductive RegisterError
  | noTenant (agentURI : GoString)
  | rpcFailed (err : GoString)

/-- `Registry.RegisterService`. -/
def registerService (cfg : RelayConfig) (agentURI serviceName localAddr : GoString) :
    ConnProc (Except RegisterError GoString) := do
  if cfg.tenantOf agentURI = [] then pure (.error (.noTenant agentURI))
  else
    match ← perform (.registerServiceRPC (cfg.tenantOf agentURI) serviceName agentURI
        cfg.relayID localAddr) with
    | .error err => pure (.error (.rpcFailed err))
    | .ok serviceID => pure (.ok serviceID)

/-- `handleRegister`: `REGISTER` has no negative reply, so the link is closed. -/
def handleRegister (cfg : RelayConfig) (codec : Codec) (ac : AgentConn) (f : CtrlFrame) :
    ConnProc Unit := do
  match unmarshalProto f .register codec.register with
  | none => pure ()
  | some reg =>
    match ← registerService cfg ac.uri reg.serviceName reg.localAddr with
    | .error _ => perform .closeConn
    | .ok id =>
      let _ ← perform (.writeFrame (.registerAck id))

/-- `splitAddr`. -/
def splitAddr (s : GoString) : Option (GoString × ℤ) :=
  match s.splitHostPort with
  | .error _ => none
  | .ok (host, portStr) => portStr.atoi.map fun port => (host, port)

/-- `handleObservedAddrQuery`. The port is converted to a `uint32`. -/
def handleObservedAddrQuery (codec : Codec) (f : CtrlFrame) : ConnProc Unit := do
  match unmarshalProto f .observedAddrQuery codec.observedAddrQuery with
  | none => pure ()
  | some requestID =>
    let addr ← perform .remoteAddr
    match splitAddr addr with
    | none => pure ()
    | some (host, port) =>
      let _ ← perform (.writeFrame
        (.observedAddrResp requestID host (UInt32.ofNat (port % 2 ^ 32).toNat)))

/-- The part that `forwardCandidate` and `forwardCheckpoint` share: find the other
end of the stream, and put the frame on its control stream as it came. -/
def forwardFrame (codec : Codec) (src : AgentConn) (streamID : UInt64) (f : CtrlFrame) :
    ConnProc Unit := do
  let peerURI ← perform (.peerOf streamID src.uri)
  if peerURI = [] then pure ()
  else
    match ← perform (.lookupAgent peerURI) with
    | none => pure ()
    | some ac =>
      match codec.marshalBinary f with
      | none => pure ()
      | some data =>
        let _ ← perform (.writeData ac data)

/-- `forwardCandidate`. -/
def forwardCandidate (codec : Codec) (src : AgentConn) (f : CtrlFrame) : ConnProc Unit :=
  match f.type with
  | .candidateOffer =>
    match unmarshalProto f .candidateOffer codec.candidateOffer with
    | none => pure ()
    | some streamID => forwardFrame codec src streamID f
  | .candidateAnswer =>
    match unmarshalProto f .candidateAnswer codec.candidateAnswer with
    | none => pure ()
    | some streamID => forwardFrame codec src streamID f
  | _ => pure ()

/-- `forwardCheckpoint`. -/
def forwardCheckpoint (codec : Codec) (src : AgentConn) (f : CtrlFrame) : ConnProc Unit :=
  match unmarshalProto f .streamCheckpoint codec.streamCheckpoint with
  | none => pure ()
  | some streamID => forwardFrame codec src streamID f

/-- `handleMigrateToP2P`. -/
def handleMigrateToP2P (codec : Codec) (ac : AgentConn) (f : CtrlFrame) : ConnProc Unit := do
  match unmarshalProto f .migrateToP2P codec.migrateToP2P with
  | none => pure ()
  | some streamID =>
    let row ← perform (.pairRow streamID)
    perform (.noteMigrated streamID (migratedPair row ac.uri))

/-- `handleForwardResume`. -/
def handleForwardResume (cfg : RelayConfig) (codec : Codec) (ac : AgentConn) (f : CtrlFrame) :
    ConnProc Unit :=
  match unmarshalProto f .forwardResume codec.forwardResume with
  | none => pure ()
  | some m => if cfg.forward = false then pure () else perform (.driveForwardResume ac m)

/-- `replyForwardRegisterReject`. -/
def replyForwardRegisterReject (ac : AgentConn) (allocID : UInt32) (reason : GoString) :
    ConnProc Unit := do
  let _ ← perform (.writeCtrl ac (.forwardRegisterReject allocID reason))

/-- The reason that goes with an error of `ArmPending`. -/
def armReason : Option ArmError → GoString
  | some .unknownAlloc => go "unknown_alloc"
  | some .ownerMismatch => go "owner_mismatch"
  | none => go "internal_error"

/-- `handleForwardRegister`. -/
def handleForwardRegister (cfg : RelayConfig) (codec : Codec) (ac : AgentConn) (f : CtrlFrame) :
    ConnProc Unit := do
  match unmarshalProto f .forwardRegister codec.forwardRegister with
  | none => pure ()
  | some m =>
    if cfg.forward = false then
      replyForwardRegisterReject ac m.allocID (go "forward_plane_disabled")
    else if h : m.punchNonce.length = punchNonceSize then
      match ← perform (.armPending m.allocID ac.uri ⟨m.punchNonce, h⟩) with
      | .error err => replyForwardRegisterReject ac m.allocID (armReason err)
      | .ok () => pure ()
    else replyForwardRegisterReject ac m.allocID (go "bad_nonce")

/-- The `switch` of `controlLoop`. -/
def handleControl (cfg : RelayConfig) (codec : Codec) (ac : AgentConn) (f : CtrlFrame) :
    ConnProc Unit :=
  match f.type with
  | .register => handleRegister cfg codec ac f
  | .ping => do
    let _ ← perform (.writeFrame .pong)
  | .observedAddrQuery => handleObservedAddrQuery codec f
  | .candidateOffer | .candidateAnswer => forwardCandidate codec ac f
  | .streamCheckpoint => forwardCheckpoint codec ac f
  | .migrateToP2P => handleMigrateToP2P codec ac f
  | .forwardResume => handleForwardResume cfg codec ac f
  | .forwardRegister => handleForwardRegister cfg codec ac f
  | .hello | .other _ => pure ()

/-- One round of `controlLoop`: whether there is another. -/
def controlRound (cfg : RelayConfig) (codec : Codec) (ac : AgentConn) : ConnProc Bool := do
  match ← perform .parseFrame with
  | .error _ => pure false
  | .ok f =>
    handleControl cfg codec ac f
    let done ← perform .ctxDone
    pure !done

/-- **`controlLoop`**, for `n` rounds. -/
def controlLoop (cfg : RelayConfig) (codec : Codec) (ac : AgentConn) (n : ℕ) : ConnProc Unit :=
  Prog.rounds (controlRound cfg codec ac) n

/-! ## The connection -/

/-- `uriFromConn`: the first URI of the leaf certificate. -/
def uriFromConn : ConnProc (Except GoString GoString) := do
  match ← perform .peerCertificates with
  | [] => pure (.error (go "edge: peer presented no certificate"))
  | [] :: _ => pure (.error (go "edge: leaf cert has no URI SAN"))
  | (uri :: _) :: _ => pure (.ok uri)

/-- One round of an accept loop: a stream comes, and `start` starts its handler. -/
def acceptRound (start : ConnProc Unit) : ConnProc Bool := do
  match ← perform .acceptStream with
  | .error _ => pure false
  | .ok () =>
    start
    pure true

/-- `servePeerRelay`, for `n` streams. -/
def servePeerRelay (n : ℕ) : ConnProc Unit :=
  Prog.rounds (acceptRound (perform .startForwardedStream)) n

/-- `Registry.UnregisterAgent`. -/
def unregisterAgent (cfg : RelayConfig) (uri : GoString) : ConnProc Unit := do
  perform (.unregisterAgent uri)
  if cfg.tenantOf uri = [] then pure ()
  else
    let _ ← perform (.deregisterAgentRPC (cfg.tenantOf uri) uri cfg.relayID)

/-- The deferred function of `serveConn`. -/
def teardown (cfg : RelayConfig) (ac : AgentConn) : ConnProc Unit := do
  perform (.untrackAgent ac)
  unregisterAgent cfg ac.uri
  if cfg.forward then
    let _ ← perform (.forgetAgent ac.uri)

/-- `serveConn` from `RegisterAgent` on, for `n` streams. -/
def serveRegistered (cfg : RelayConfig) (ac : AgentConn) (n : ℕ) : ConnProc Unit := do
  perform (.registerAgent ac)
  perform (.trackAgent ac)
  Prog.deferred (teardown cfg ac) <| Prog.deferred (perform .cancelConn) do
    perform (.startControlLoop ac)
    Prog.rounds (acceptRound (perform (.startConsumerStream ac))) n

/-- `serveConn` for an agent: `HELLO` has to name the certificate's URI. -/
def serveAgent (cfg : RelayConfig) (codec : Codec) (id : ℕ) (uri : GoString) (n : ℕ) :
    ConnProc Unit := do
  match ← perform .acceptStream with
  | .error _ => pure ()
  | .ok () =>
    match ← perform .parseFrame with
    | .error _ => pure ()
    | .ok f =>
      match unmarshalProto f .hello codec.hello with
      | none => pure ()
      | some agentURI =>
        if agentURI ≠ uri then pure ()
        else
          let successors ← perform .successors
          match ← perform (.writeFrame (.helloAck successors)) with
          | .error _ => pure ()
          | .ok () => serveRegistered cfg ⟨id, uri⟩ n

/-- **`serveConn`**, for connection `id` and `n` streams. -/
def serveConn (cfg : RelayConfig) (codec : Codec) (id : ℕ) (n : ℕ) : ConnProc Unit :=
  Prog.deferred (perform .closeConn) do
    match ← uriFromConn with
    | .error _ => pure ()
    | .ok uri =>
      match cfg.parse uri with
      | none => pure ()
      | some name => if name.isRelay then servePeerRelay n else serveAgent cfg codec id uri n

end ConnProc
