import OutRelay.Connection
import OutRelay.Duties

/-!
# Every path of a connection

What the goroutines of a connection do on every path, whatever the agent sends
and the rest of the relay answers.

* `serveConn` acts for an agent only after a certificate, a `HELLO` under the
  same URI and a written `HELLO_ACK`, and it starts a handler of forwarded
  streams only for a certificate of a relay (`serveConn_gate`).
* A connection that has been entered in the tables is taken out of all of them,
  in one order and exactly once, before it is closed (`serveConn_teardown`).
* The control loop meets each request at once, once and in order
  (`controlLoop_answers`), and it echoes the agent's own address
  (`observedAddr_echoed`).
-/

/-! ## In whose name -/

/-- The agent in whose name an operation is performed. -/
def ConnOp.agent : ConnOp → Option GoString
  | .registerAgent ac | .trackAgent ac | .untrackAgent ac => some ac.uri
  | .startControlLoop ac | .startConsumerStream ac | .driveForwardResume ac _ => some ac.uri
  | .unregisterAgent uri | .forgetAgent uri => some uri
  | .registerServiceRPC _ _ uri _ _ | .deregisterAgentRPC _ uri _ => some uri
  | .peerOf _ uri | .armPending _ uri _ => some uri
  | _ => none

namespace ConnProc

variable {cfg : RelayConfig} {codec : Codec} {ac : AgentConn} {id n : ℕ} {uri : GoString}

/-- **The connection is that of the agent `uri`**: by its certificate, by its
`HELLO`, and the relay has said so. -/
structure Authenticated (cfg : RelayConfig) (codec : Codec) (uri : GoString)
    (tr : List ConnEvent) : Prop where
  certificate : ∃ uris certs, ⟨.peerCertificates, (uri :: uris) :: certs⟩ ∈ tr
  role : ∃ name, cfg.parse uri = some name ∧ name.isRelay = false
  hello : ∃ f, ⟨.parseFrame, .ok f⟩ ∈ tr ∧ unmarshalProto f .hello codec.hello = some uri
  acknowledged : ∃ successors, ⟨.writeFrame (.helloAck successors), .ok ()⟩ ∈ tr

/-- What has been read and written stays so. -/
theorem Authenticated.mono {tr tr' : List ConnEvent} (h : Authenticated cfg codec uri tr)
    (hsub : tr ⊆ tr') : Authenticated cfg codec uri tr' where
  certificate := by
    obtain ⟨uris, certs, hmem⟩ := h.certificate
    exact ⟨uris, certs, hsub hmem⟩
  role := h.role
  hello := by
    obtain ⟨f, hmem, hf⟩ := h.hello
    exact ⟨f, hsub hmem, hf⟩
  acknowledged := by
    obtain ⟨successors, hmem⟩ := h.acknowledged
    exact ⟨successors, hsub hmem⟩

/-- The connection is that of a peer relay. -/
def PeerAuthenticated (cfg : RelayConfig) (tr : List ConnEvent) : Prop :=
  ∃ uri uris certs name, ⟨.peerCertificates, (uri :: uris) :: certs⟩ ∈ tr
    ∧ cfg.parse uri = some name ∧ name.isRelay = true

/-- What an operation of `serveConn` requires of the events before it. Frames are
passed on by the control loop, and not here. -/
def Entitled (cfg : RelayConfig) (codec : Codec) (tr : List ConnEvent) (o : ConnOp) : Prop :=
  (∀ uri, o.agent = some uri → Authenticated cfg codec uri tr)
    ∧ (o = .startForwardedStream → PeerAuthenticated cfg tr)
    ∧ ∀ dst data, o ≠ .writeData dst data

/-- An operation in no agent's name. -/
theorem entitled_of_none {tr : List ConnEvent} {o : ConnOp} (ho : o.agent = none)
    (hne : o ≠ .startForwardedStream) (hdata : ∀ dst data, o ≠ .writeData dst data) :
    Entitled cfg codec tr o :=
  ⟨fun _ h => (by cases ho.symm.trans h), fun h => absurd h hne, hdata⟩

theorem acceptRound_within {A : ConnOp → Prop} {start : ConnProc Unit} (ha : A .acceptStream)
    (hs : start.Within A) : (acceptRound start).Within A := by
  refine Prog.Within.bind (Prog.within_perform ha) fun r => ?_
  cases r with
  | error err => exact Prog.within_pure
  | ok u => exact Prog.Within.bind hs fun _ => Prog.within_pure

theorem teardown_within {A : ConnOp → Prop} (huntrack : A (.untrackAgent ac))
    (hunreg : A (.unregisterAgent ac.uri))
    (hdereg : ∀ tenant, A (.deregisterAgentRPC tenant ac.uri cfg.relayID))
    (hforget : A (.forgetAgent ac.uri)) : (teardown cfg ac).Within A := by
  refine Prog.Within.bind (Prog.within_perform huntrack) fun _ => ?_
  refine Prog.Within.bind (Prog.Within.bind (Prog.within_perform hunreg) fun _ => ?_) fun _ => ?_
  · split_ifs
    · exact Prog.within_pure
    · exact Prog.Within.bind (Prog.within_perform (hdereg _)) fun _ => Prog.within_pure
  · split_ifs
    · exact Prog.Within.bind (Prog.within_perform hforget) fun _ => Prog.within_pure
    · exact Prog.within_pure

/-- An operation of a registered connection: it is in no other agent's name, and
neither starts the handler of a forwarded stream nor passes a frame on. -/
def OwnOp (uri : GoString) (o : ConnOp) : Prop :=
  (∀ uri', o.agent = some uri' → uri' = uri) ∧ o ≠ .startForwardedStream
    ∧ ∀ dst data, o ≠ .writeData dst data

/-- A registered connection acts for its agent. -/
theorem serveRegistered_within : (serveRegistered cfg ac n).Within (OwnOp ac.uri) := by
  have hown : ∀ {o : ConnOp}, o.agent = some ac.uri ∨ o.agent = none →
      o ≠ .startForwardedStream → (∀ dst data, o ≠ .writeData dst data) → OwnOp ac.uri o := by
    rintro o (ho | ho) hne hdata
    · exact ⟨fun uri h => Option.some.inj (h.symm.trans ho), hne, hdata⟩
    · exact ⟨fun _ h => (by cases ho.symm.trans h), hne, hdata⟩
  refine Prog.Within.bind (Prog.within_perform (hown (Or.inl rfl) nofun nofun)) fun _ => ?_
  refine Prog.Within.bind (Prog.within_perform (hown (Or.inl rfl) nofun nofun)) fun _ => ?_
  refine Prog.Within.deferred (teardown_within (hown (Or.inl rfl) nofun nofun)
    (hown (Or.inl rfl) nofun nofun) (fun _ => hown (Or.inl rfl) nofun nofun)
    (hown (Or.inl rfl) nofun nofun)) ?_
  refine Prog.Within.deferred (Prog.within_perform (hown (Or.inr rfl) nofun nofun)) ?_
  refine Prog.Within.bind (Prog.within_perform (hown (Or.inl rfl) nofun nofun)) fun _ => ?_
  exact Prog.Within.rounds (acceptRound_within (hown (Or.inr rfl) nofun nofun)
    (Prog.within_perform (hown (Or.inl rfl) nofun nofun)))

/-- The connection of a peer relay acts for no agent. -/
theorem servePeerRelay_within : (servePeerRelay n).Within
    (fun o => o.agent = none ∧ ∀ dst data, o ≠ .writeData dst data) :=
  Prog.Within.rounds (acceptRound_within ⟨rfl, nofun⟩ (Prog.within_perform ⟨rfl, nofun⟩))

/-- What `serveAgent` requires, after the certificate. -/
theorem serveAgent_sites {uris : List GoString} {certs : List (List GoString)} {name : Identity}
    (hname : cfg.parse uri = some name) (hrole : name.isRelay = false) :
    (serveAgent cfg codec id uri n).Sites fun tr o =>
      Entitled cfg codec (⟨.peerCertificates, (uri :: uris) :: certs⟩ :: tr) o := by
  refine Prog.sites_call.mpr ⟨entitled_of_none rfl nofun nofun, fun r => ?_⟩
  cases r with
  | error err => exact Prog.sites_pure
  | ok u =>
    refine Prog.sites_call.mpr ⟨entitled_of_none rfl nofun nofun, fun r => ?_⟩
    cases r with
    | error err => exact Prog.sites_pure
    | ok f =>
      dsimp only
      cases hf : unmarshalProto f .hello codec.hello with
      | none => exact Prog.sites_pure
      | some agentURI =>
        dsimp only
        split_ifs with hne
        · exact Prog.sites_pure
        · cases not_not.mp hne
          refine Prog.sites_call.mpr ⟨entitled_of_none rfl nofun nofun, fun successors => ?_⟩
          refine Prog.sites_call.mpr ⟨entitled_of_none rfl nofun nofun, fun r => ?_⟩
          cases r with
          | error err => exact Prog.sites_pure
          | ok u' =>
            refine Prog.Sites.imp serveRegistered_within fun tr o ho => ⟨fun uri huri => ?_,
              fun h => absurd h ho.2.1, ho.2.2⟩
            cases ho.1 uri huri
            exact ⟨⟨uris, certs, by simp⟩, ⟨name, hname, hrole⟩, ⟨f, by simp, hf⟩,
              ⟨successors, by simp⟩⟩

/-- **The gate of a connection.** Whatever `serveConn` does in the name of an
agent it does after a certificate with the agent's URI, a `HELLO` with the same
URI and a written `HELLO_ACK`, and it starts handlers of forwarded streams for
relays only. -/
theorem serveConn_gate : (serveConn cfg codec id n).Sites (Entitled cfg codec) := by
  refine Prog.sites_deferred.mpr ⟨Prog.sites_bind.mpr ⟨?_, ?_⟩, Prog.all_iff.mpr fun _ _ _ =>
    Prog.sites_perform.mpr (entitled_of_none rfl nofun nofun)⟩
  · refine Prog.sites_call.mpr ⟨entitled_of_none rfl nofun nofun, fun certs => ?_⟩
    match certs with
    | [] | [] :: _ | (_ :: _) :: _ => exact Prog.sites_pure
  · refine Prog.all_call.mpr fun certs => ?_
    match certs with
    | [] | [] :: _ => exact Prog.all_pure.mpr Prog.sites_pure
    | (uri :: uris) :: certs =>
      rw [Prog.all_pure]
      dsimp only
      cases hname : cfg.parse uri with
      | none => exact Prog.sites_pure
      | some name =>
        dsimp only
        split_ifs with hrole
        · refine Prog.Sites.imp servePeerRelay_within fun tr o ho =>
            ⟨fun _ h => ?_, fun _ => ?_, ho.2⟩
          · cases ho.1.symm.trans h
          · exact ⟨uri, uris, certs, name, by simp, hname, hrole⟩
        · exact serveAgent_sites hname (Bool.eq_false_iff.mpr hrole)

/-! ## The end of a connection -/

/-- The call to the controller, for a URI with a tenant. -/
def deregisterOps (cfg : RelayConfig) (uri : GoString) : List ConnOp :=
  if cfg.tenantOf uri = [] then []
  else [.deregisterAgentRPC (cfg.tenantOf uri) uri cfg.relayID]

/-- The call to the plane, if there is one. -/
def forgetOps (cfg : RelayConfig) (uri : GoString) : List ConnOp :=
  if cfg.forward then [.forgetAgent uri] else []

/-- What the deferred function of `serveConn` performs. -/
def teardownOps (cfg : RelayConfig) (ac : AgentConn) : List ConnOp :=
  .untrackAgent ac :: .unregisterAgent ac.uri ::
    (deregisterOps cfg ac.uri ++ forgetOps cfg ac.uri)

/-- The end of a connection that has been entered in the tables. -/
def closingOps (cfg : RelayConfig) (ac : AgentConn) : List ConnOp :=
  .cancelConn :: (teardownOps cfg ac ++ [ConnOp.closeConn])

/-- The operations on the tables that a connection is entered in, and on the
connection and its context. -/
def isLifecycle : ConnOp → Bool
  | .registerAgent _ | .trackAgent _ | .untrackAgent _ | .unregisterAgent _ => true
  | .deregisterAgentRPC _ _ _ | .forgetAgent _ | .cancelConn | .closeConn => true
  | _ => false

/-- **The life of a connection**, by the operations performed: it is closed
without having been entered anywhere, or it is entered in the registry and in the
set of agents, and at its end the context is cancelled and the connection taken
out of everything, before it is closed. -/
def Lifecycle (cfg : RelayConfig) (id : ℕ) (ops : List ConnOp) : Prop :=
  (∃ pre, ops = pre ++ [ConnOp.closeConn] ∧ pre.filter isLifecycle = [])
    ∨ ∃ uri pre, ops = pre ++ closingOps cfg ⟨id, uri⟩
      ∧ pre.filter isLifecycle = [.registerAgent ⟨id, uri⟩, .trackAgent ⟨id, uri⟩]

theorem unregisterAgent_does : (unregisterAgent cfg uri).Does
    (.unregisterAgent uri :: deregisterOps cfg uri) := by
  refine Prog.Does.bind (E := connection) (l := [_]) Prog.does_perform fun _ => ?_
  split_ifs
  · exact Prog.does_pure
  · exact Prog.Does.bind (k := []) Prog.does_perform fun _ => Prog.does_pure

theorem teardown_does : (teardown cfg ac).Does (teardownOps cfg ac) := by
  unfold teardown teardownOps forgetOps
  refine Prog.Does.bind (l := [_]) Prog.does_perform fun _ => ?_
  refine Prog.Does.bind unregisterAgent_does fun _ => ?_
  split_ifs
  · exact Prog.Does.bind (k := []) Prog.does_perform fun _ => Prog.does_pure
  · exact Prog.does_pure

/-- A registered connection is taken out of the tables. -/
theorem serveRegistered_lifecycle : (serveRegistered cfg ac n).All fun tr _ =>
    ∃ pre, tr.map Interface.Event.op = pre ++ ConnOp.cancelConn :: teardownOps cfg ac
      ∧ pre.filter isLifecycle = [.registerAgent ac, .trackAgent ac] := by
  refine Prog.all_call.mpr fun _ => Prog.all_call.mpr fun _ => ?_
  rw [Prog.all_deferred, Prog.all_deferred]
  have hloop : (do
      perform (.startControlLoop ac)
      Prog.rounds (acceptRound (perform (.startConsumerStream ac))) n : ConnProc Unit).Within
        fun o => isLifecycle o = false :=
    Prog.Within.bind (Prog.within_perform rfl) fun _ =>
      Prog.Within.rounds (acceptRound_within rfl (Prog.within_perform rfl))
  refine Prog.All.imp hloop.filter_eq_nil fun tr _ htr => ?_
  rw [Prog.all_perform]
  refine fun _ => Prog.All.imp teardown_does fun tr' _ htr' => ?_
  refine ⟨.registerAgent ac :: .trackAgent ac :: tr.map Interface.Event.op, ?_, ?_⟩
  · simp [htr']
  · rw [List.filter_cons_of_pos rfl, List.filter_cons_of_pos rfl, htr]

/-- A connection that has not been closed yet. -/
def Unclosed (cfg : RelayConfig) (id : ℕ) (ops : List ConnOp) : Prop :=
  ops.filter isLifecycle = []
    ∨ ∃ uri pre, ops = pre ++ ConnOp.cancelConn :: teardownOps cfg ⟨id, uri⟩
      ∧ pre.filter isLifecycle = [.registerAgent ⟨id, uri⟩, .trackAgent ⟨id, uri⟩]

theorem Unclosed.cons {o : ConnOp} {ops : List ConnOp} (ho : isLifecycle o = false)
    (h : Unclosed cfg id ops) : Unclosed cfg id (o :: ops) := by
  obtain h | ⟨uri, pre, rfl, hpre⟩ := h
  · exact Or.inl ((List.filter_cons_of_neg (Bool.eq_false_iff.mp ho)).trans h)
  · refine Or.inr ⟨uri, o :: pre, rfl, ?_⟩
    exact (List.filter_cons_of_neg (Bool.eq_false_iff.mp ho)).trans hpre

/-- An operation on none of the tables. -/
theorem unclosed_call {o : ConnOp} {k : o.Ans → ConnProc Unit} (ho : isLifecycle o = false)
    (h : ∀ r, (k r).All fun tr _ => Unclosed cfg id (tr.map Interface.Event.op)) :
    (perform o >>= k).All fun tr _ => Unclosed cfg id (tr.map Interface.Event.op) :=
  Prog.all_call.mpr fun r => Prog.All.imp (h r) fun _ _ => Unclosed.cons ho

theorem serveAgent_unclosed : (serveAgent cfg codec id uri n).All fun tr _ =>
    Unclosed cfg id (tr.map Interface.Event.op) := by
  have hnil : Unclosed cfg id [] := Or.inl rfl
  refine unclosed_call rfl fun r => ?_
  cases r with
  | error err => exact hnil
  | ok u =>
    refine unclosed_call rfl fun r => ?_
    cases r with
    | error err => exact hnil
    | ok f =>
      dsimp only
      split
      · exact hnil
      · split_ifs
        · exact hnil
        · refine unclosed_call rfl fun _ => unclosed_call rfl fun r => ?_
          cases r with
          | error err => exact hnil
          | ok u' =>
            exact Prog.All.imp serveRegistered_lifecycle fun tr _ ⟨pre, h, hpre⟩ =>
              Or.inr ⟨uri, pre, h, hpre⟩

/-- **A connection leaves nothing behind**, whichever way `serveConn` returns. -/
theorem serveConn_teardown : (serveConn cfg codec id n).All fun tr _ =>
    Lifecycle cfg id (tr.map Interface.Event.op) := by
  have hnil : Unclosed cfg id [] := Or.inl rfl
  refine Prog.all_deferred.mpr (Prog.All.imp (Q := fun tr _ =>
    Unclosed cfg id (tr.map Interface.Event.op)) ?_ fun tr _ htr => ?_)
  · rw [uriFromConn, bind_assoc]
    refine unclosed_call rfl fun certs => ?_
    match certs with
    | [] | [] :: _ => exact hnil
    | (uri :: uris) :: certs =>
      rw [pure_bind]
      dsimp only
      split
      · exact hnil
      · split_ifs
        · exact Prog.All.imp (Prog.Within.filter_eq_nil (Prog.Within.rounds
            (acceptRound_within rfl (Prog.within_perform rfl)))) fun tr _ h => Or.inl h
        · exact serveAgent_unclosed
  · rw [Prog.all_perform]
    intro _
    rw [List.map_append]
    obtain h | ⟨uri, pre, h, hpre⟩ := htr
    · exact Or.inl ⟨_, rfl, h⟩
    · refine Or.inr ⟨uri, pre, ?_, hpre⟩
      rw [h, List.append_assoc]
      rfl

/-! ## What a control frame leads to -/

/-- The stream that a frame for the other end is about. -/
def relayedStream (codec : Codec) (f : CtrlFrame) : Option UInt64 :=
  match f.type with
  | .candidateOffer => codec.candidateOffer f.payload
  | .candidateAnswer => codec.candidateAnswer f.payload
  | .streamCheckpoint => codec.streamCheckpoint f.payload
  | _ => none

/-- **What the handler of a frame may perform**: what the frame asks for, in the
name of the connection's agent. -/
inductive Handles (cfg : RelayConfig) (codec : Codec) (ac : AgentConn) (f : CtrlFrame) :
    ConnOp → Prop
  | registerService (reg : Register) (h : f.type = .register) :
      Handles cfg codec ac f (.registerServiceRPC (cfg.tenantOf ac.uri) reg.serviceName ac.uri
        cfg.relayID reg.localAddr)
  | registerAck (serviceID : GoString) (h : f.type = .register) :
      Handles cfg codec ac f (.writeFrame (.registerAck serviceID))
  | close (h : f.type = .register) : Handles cfg codec ac f .closeConn
  | pong (h : f.type = .ping) : Handles cfg codec ac f (.writeFrame .pong)
  | remoteAddr (h : f.type = .observedAddrQuery) : Handles cfg codec ac f .remoteAddr
  | observedAddr (requestID : UInt64) (ip : GoString) (port : UInt32)
      (h : f.type = .observedAddrQuery) :
      Handles cfg codec ac f (.writeFrame (.observedAddrResp requestID ip port))
  | peerOf (sid : UInt64) (h : relayedStream codec f = some sid) :
      Handles cfg codec ac f (.peerOf sid ac.uri)
  | lookupAgent (sid : UInt64) (uri : GoString) (h : relayedStream codec f = some sid) :
      Handles cfg codec ac f (.lookupAgent uri)
  | writeData (sid : UInt64) (dst : AgentConn) (data : List UInt8)
      (h : relayedStream codec f = some sid) (hdata : codec.marshalBinary f = some data) :
      Handles cfg codec ac f (.writeData dst data)
  | pairRow (sid : UInt64) (h : f.type = .migrateToP2P) : Handles cfg codec ac f (.pairRow sid)
  | noteMigrated (sid : UInt64) (pair : StreamPair) (h : f.type = .migrateToP2P) :
      Handles cfg codec ac f (.noteMigrated sid pair)
  | driveForwardResume (m : ForwardResume) (h : f.type = .forwardResume) :
      Handles cfg codec ac f (.driveForwardResume ac m)
  | armPending (allocID : UInt32) (nonce : Nonce) (h : f.type = .forwardRegister) :
      Handles cfg codec ac f (.armPending allocID ac.uri nonce)
  | reject (allocID : UInt32) (reason : GoString) (h : f.type = .forwardRegister) :
      Handles cfg codec ac f (.writeCtrl ac (.forwardRegisterReject allocID reason))

section Frames

variable {f : CtrlFrame} {sid : UInt64}

theorem unmarshalProto_of_type {α : Type} {type : CtrlType} {decode : List UInt8 → Option α}
    (hf : f.type = type) : unmarshalProto f type decode = decode f.payload := if_pos hf

theorem handleRegister_within (hf : f.type = .register) :
    (handleRegister cfg codec ac f).Within (Handles cfg codec ac f) := by
  unfold handleRegister registerService
  split
  · exact Prog.within_pure
  · refine Prog.Within.bind ?_ fun r => ?_
    · split_ifs
      · exact Prog.within_pure
      · refine Prog.Within.bind (Prog.within_perform (.registerService _ hf)) fun r => ?_
        cases r with
        | error err => exact Prog.within_pure
        | ok serviceID => exact Prog.within_pure
    · cases r with
      | error err => exact Prog.within_perform (.close hf)
      | ok serviceID =>
        exact Prog.Within.bind (Prog.within_perform (.registerAck _ hf)) fun _ => Prog.within_pure

theorem handleObservedAddrQuery_within (hf : f.type = .observedAddrQuery) :
    (handleObservedAddrQuery codec f).Within (Handles cfg codec ac f) := by
  unfold handleObservedAddrQuery
  split
  · exact Prog.within_pure
  · refine Prog.Within.bind (Prog.within_perform (.remoteAddr hf)) fun addr => ?_
    split
    · exact Prog.within_pure
    · exact Prog.Within.bind (Prog.within_perform (.observedAddr _ _ _ hf)) fun _ =>
        Prog.within_pure

theorem forwardFrame_within (hf : relayedStream codec f = some sid) :
    (forwardFrame codec ac sid f).Within (Handles cfg codec ac f) := by
  refine Prog.Within.bind (Prog.within_perform (.peerOf sid hf)) fun peerURI => ?_
  split_ifs
  · exact Prog.within_pure
  · refine Prog.Within.bind (Prog.within_perform (.lookupAgent sid _ hf)) fun r => ?_
    cases r with
    | none => exact Prog.within_pure
    | some dst =>
      cases hdata : codec.marshalBinary f with
      | none => exact Prog.within_pure
      | some data =>
        exact Prog.Within.bind (Prog.within_perform (.writeData sid dst data hf hdata)) fun _ =>
          Prog.within_pure

/-- `forwardCandidate` and `forwardCheckpoint`, by the stream that the frame is
about. -/
theorem forwardCandidate_eq (hf : f.type = .candidateOffer ∨ f.type = .candidateAnswer) :
    forwardCandidate codec ac f
      = (relayedStream codec f).elim (pure ()) fun sid => forwardFrame codec ac sid f := by
  unfold forwardCandidate relayedStream
  obtain hf | hf := hf
  · rw [unmarshalProto_of_type hf, hf]
    dsimp only
    cases codec.candidateOffer f.payload <;> rfl
  · rw [unmarshalProto_of_type hf, hf]
    dsimp only
    cases codec.candidateAnswer f.payload <;> rfl

theorem forwardCheckpoint_eq (hf : f.type = .streamCheckpoint) :
    forwardCheckpoint codec ac f
      = (relayedStream codec f).elim (pure ()) fun sid => forwardFrame codec ac sid f := by
  unfold forwardCheckpoint relayedStream
  rw [unmarshalProto_of_type hf, hf]
  dsimp only
  cases codec.streamCheckpoint f.payload <;> rfl

theorem handleMigrateToP2P_within (hf : f.type = .migrateToP2P) :
    (handleMigrateToP2P codec ac f).Within (Handles cfg codec ac f) := by
  unfold handleMigrateToP2P
  split
  · exact Prog.within_pure
  · exact Prog.Within.bind (Prog.within_perform (.pairRow _ hf)) fun _ =>
      Prog.within_perform (.noteMigrated _ _ hf)

theorem handleForwardResume_within (hf : f.type = .forwardResume) :
    (handleForwardResume cfg codec ac f).Within (Handles cfg codec ac f) := by
  unfold handleForwardResume
  split
  · exact Prog.within_pure
  · split_ifs
    · exact Prog.within_pure
    · exact Prog.within_perform (.driveForwardResume _ hf)

theorem handleForwardRegister_within (hf : f.type = .forwardRegister) :
    (handleForwardRegister cfg codec ac f).Within (Handles cfg codec ac f) := by
  have hreject : ∀ allocID reason,
      (replyForwardRegisterReject ac allocID reason).Within (Handles cfg codec ac f) :=
    fun allocID reason => Prog.Within.bind (Prog.within_perform (.reject allocID reason hf))
      fun _ => Prog.within_pure
  unfold handleForwardRegister
  split
  · exact Prog.within_pure
  · split_ifs
    · exact hreject _ _
    · refine Prog.Within.bind (Prog.within_perform (.armPending _ _ hf)) fun r => ?_
      cases r with
      | error err => exact hreject _ _
      | ok u => exact Prog.within_pure
    · exact hreject _ _

/-- **A frame leads to what it asks for, and to nothing else.** -/
theorem handleControl_within :
    (handleControl cfg codec ac f).Within (Handles cfg codec ac f) := by
  have hrelayed : ((relayedStream codec f).elim (pure ()) fun sid =>
      forwardFrame codec ac sid f).Within (Handles cfg codec ac f) := by
    cases hsid : relayedStream codec f with
    | none => exact Prog.within_pure
    | some sid => exact forwardFrame_within hsid
  unfold handleControl
  split
  next hf => exact handleRegister_within hf
  next hf => exact Prog.Within.bind (Prog.within_perform (.pong hf)) fun _ => Prog.within_pure
  next hf => exact handleObservedAddrQuery_within hf
  next hf =>
    rw [forwardCandidate_eq (Or.inl hf)]
    exact hrelayed
  next hf =>
    rw [forwardCandidate_eq (Or.inr hf)]
    exact hrelayed
  next hf =>
    rw [forwardCheckpoint_eq hf]
    exact hrelayed
  next hf => exact handleMigrateToP2P_within hf
  next hf => exact handleForwardResume_within hf
  next hf => exact handleForwardRegister_within hf
  next hf => exact Prog.within_pure
  next hf => exact Prog.within_pure

end Frames

/-! ## Requests and their answers -/

/-- What a request calls for: that the agent is sent a message, or its connection
closed; that the controller is told of a service; or that the plane arms a nonce. -/
inductive Duty
  | reply (m : CtrlMessage)
  | close
  | register (tenant name uri relayID localAddr : GoString)
  | arm (allocID : UInt32) (uri : GoString) (nonce : Nonce)
  deriving DecidableEq

/-- **What a frame calls for**: `PONG` for `PING`; for a `REGISTER` that can be read a
call to the controller, or the end of the connection where the agent has no tenant; and
for a `FORWARD_REGISTER` that the plane arms its nonce, or a reject where it is not to
be asked. -/
def frameOwes (cfg : RelayConfig) (codec : Codec) (ac : AgentConn) (f : CtrlFrame) :
    Option Duty :=
  match f.type with
  | .ping => some (.reply .pong)
  | .register => (codec.register f.payload).map fun reg =>
      if cfg.tenantOf ac.uri = [] then .close
      else .register (cfg.tenantOf ac.uri) reg.serviceName ac.uri cfg.relayID reg.localAddr
  | .forwardRegister => (codec.forwardRegister f.payload).map fun m =>
      if cfg.forward = false then
        .reply (.forwardRegisterReject m.allocID (go "forward_plane_disabled"))
      else if h : m.punchNonce.length = punchNonceSize then .arm m.allocID ac.uri ⟨m.punchNonce, h⟩
      else .reply (.forwardRegisterReject m.allocID (go "bad_nonce"))
  | _ => none

/-- **The duties of the control loop** towards its agent, its address apart. A frame
that is read calls for what `frameOwes` says, the answer of the controller to a
`REGISTER` for an acknowledgement or the end of the connection, and the refusal of the
plane to arm a nonce for a reject. -/
def controlDuties (cfg : RelayConfig) (codec : Codec) (ac : AgentConn) :
    Duties connection Duty where
  owes
    | ⟨.parseFrame, .ok f⟩ => frameOwes cfg codec ac f
    | ⟨.registerServiceRPC _ _ _ _ _, .ok serviceID⟩ => some (.reply (.registerAck serviceID))
    | ⟨.registerServiceRPC _ _ _ _ _, .error _⟩ => some .close
    | ⟨.armPending allocID _ _, .error err⟩ =>
      some (.reply (.forwardRegisterReject allocID (armReason err)))
    | _ => none
  pays
    | .writeFrame (.observedAddrResp _ _ _) => none
    | .writeFrame m => some (.reply m)
    | .writeCtrl dst m => if dst = ac then some (.reply m) else none
    | .closeConn => some .close
    | .registerServiceRPC tenant name uri relayID localAddr =>
      some (.register tenant name uri relayID localAddr)
    | .armPending allocID uri nonce => some (.arm allocID uri nonce)
    | _ => none

section Answers

variable {f : CtrlFrame}

theorem handleRegister_prompt (hf : f.type = .register) :
    (controlDuties cfg codec ac).Prompt (frameOwes cfg codec ac f).toList
      (handleRegister cfg codec ac f) := by
  unfold frameOwes handleRegister
  rw [unmarshalProto_of_type hf, hf]
  cases codec.register f.payload with
  | none => exact Duties.prompt_pure
  | some reg =>
    dsimp only [Option.map_some]
    unfold registerService
    split_ifs with htenant
    · exact Duties.Prompt.call rfl fun _ => Duties.prompt_pure
    · rw [bind_assoc]
      refine Duties.Prompt.call rfl fun r => ?_
      cases r with
      | error err => exact Duties.Prompt.call rfl fun _ => Duties.prompt_pure
      | ok serviceID => exact Duties.Prompt.call rfl fun _ => Duties.prompt_pure

theorem replyForwardRegisterReject_prompt {allocID : UInt32} {reason : GoString} :
    (controlDuties cfg codec ac).Prompt [.reply (.forwardRegisterReject allocID reason)]
      (replyForwardRegisterReject ac allocID reason) := by
  refine Duties.Prompt.call ?_ fun _ => Duties.prompt_pure
  show _ = (if ac = ac then some (Duty.reply _) else none).toList
  rw [if_pos rfl]
  rfl

theorem handleForwardRegister_prompt (hf : f.type = .forwardRegister) :
    (controlDuties cfg codec ac).Prompt (frameOwes cfg codec ac f).toList
      (handleForwardRegister cfg codec ac f) := by
  unfold frameOwes handleForwardRegister
  rw [unmarshalProto_of_type hf, hf]
  cases codec.forwardRegister f.payload with
  | none => exact Duties.prompt_pure
  | some m =>
    dsimp only [Option.map_some]
    split_ifs with hplane hnonce
    · exact replyForwardRegisterReject_prompt
    · refine Duties.Prompt.call rfl fun r => ?_
      cases r with
      | error err => exact replyForwardRegisterReject_prompt
      | ok u => exact Duties.prompt_pure
    · exact replyForwardRegisterReject_prompt

/-- The other frames call for nothing of the kind. -/
theorem Handles.quiet {o : ConnOp} (h : Handles cfg codec ac f o) (hping : f.type ≠ .ping)
    (hreg : f.type ≠ .register) (hfwd : f.type ≠ .forwardRegister) :
    (∀ ans, (controlDuties cfg codec ac).owes ⟨o, ans⟩ = none)
      ∧ (controlDuties cfg codec ac).pays o = none := by
  cases h <;> first | exact ⟨fun _ => rfl, rfl⟩ | contradiction

/-- **Each frame's handler does what the frame calls for.** -/
theorem handleControl_prompt : (controlDuties cfg codec ac).Prompt
    (frameOwes cfg codec ac f).toList (handleControl cfg codec ac f) := by
  by_cases hreg : f.type = .register
  · simp only [handleControl, hreg]
    exact handleRegister_prompt hreg
  by_cases hfwd : f.type = .forwardRegister
  · simp only [handleControl, hfwd]
    exact handleForwardRegister_prompt hfwd
  by_cases hping : f.type = .ping
  · unfold frameOwes
    simp only [handleControl, hping]
    exact Duties.Prompt.call rfl fun _ => Duties.prompt_pure
  · have hnone : frameOwes cfg codec ac f = none := by
      unfold frameOwes
      split <;> first | rfl | contradiction
    rw [hnone]
    exact Duties.prompt_of_within
      (Prog.Sites.imp handleControl_within fun _ _ h => h.quiet hping hreg hfwd)

end Answers

/-! ## The address of an agent -/

/-- The request ids of the address queries that are read. -/
def asksAddr (codec : Codec) : ConnEvent → Option UInt64
  | ⟨.parseFrame, .ok f⟩ => unmarshalProto f .observedAddrQuery codec.observedAddrQuery
  | _ => none

/-- The addresses that are written, with the request they answer. -/
def tellsAddr : ConnEvent → Option (UInt64 × GoString × UInt32)
  | ⟨.writeFrame (.observedAddrResp requestID ip port), _⟩ => some (requestID, ip, port)
  | _ => none

section Echo

open GoString

variable {host : GoString} {port : ℕ} {f : CtrlFrame}

/-- `splitAddr` reads an address as it is printed. -/
theorem splitAddr_joinHostPort (hhost : lbracket ∉ host ∧ rbracket ∉ host)
    (hport : port < 2 ^ 16) :
    splitAddr (joinHostPort host (itoa port)) = some (host, (port : ℤ)) := by
  have hsplit : splitHostPort (joinHostPort host (itoa port)) = .ok (host, itoa port) :=
    splitHostPort_joinHostPort hhost ⟨not_mem_itoa (by decide), not_mem_itoa (by decide)⟩
      (not_mem_itoa (by decide))
  unfold splitAddr
  rw [hsplit]
  dsimp only
  rw [atoi_itoa (by omega)]
  rfl

/-- The port goes through the conversion to `uint32` unchanged. -/
theorem ofNat_toNat_emod (hport : port < 2 ^ 16) :
    UInt32.ofNat ((port : ℤ) % 2 ^ 32).toNat = UInt32.ofNat port := by
  congr 1
  omega

/-- The last operation of a round is in neither account. -/
theorem filterMap_round {β : Type} {g : ConnEvent → Option β} {done : Bool} {tr : List ConnEvent}
    (hg : g ⟨.ctxDone, done⟩ = none) :
    List.filterMap g (⟨.parseFrame, .ok f⟩ :: (tr ++ [⟨.ctxDone, done⟩]))
      = (g ⟨.parseFrame, .ok f⟩).toList ++ tr.filterMap g := by
  have hend : List.filterMap g (tr ++ [⟨.ctxDone, done⟩]) = tr.filterMap g := by
    rw [List.filterMap_append, List.filterMap_cons_none hg, List.filterMap_nil, List.append_nil]
  rw [← hend]
  cases hf : g ⟨.parseFrame, .ok f⟩ with
  | none => exact List.filterMap_cons_none hf
  | some b => exact List.filterMap_cons_some hf

/-- The environment gives the agent's address as `host:port`. -/
def AddrIs (host : GoString) (port : ℕ) (ev : ConnEvent) : Prop :=
  ∀ a, ev = ⟨.remoteAddr, a⟩ → a = joinHostPort host (itoa port)

/-- What the answer to the query `requestID` says. -/
def addrAnswer (host : GoString) (port : ℕ) (requestID : UInt64) : UInt64 × GoString × UInt32 :=
  (requestID, host, UInt32.ofNat port)

/-- A frame's handler tells the address where the frame asks for it. -/
theorem handleControl_tells (hhost : lbracket ∉ host ∧ rbracket ∉ host) (hport : port < 2 ^ 16) :
    (handleControl cfg codec ac f).All fun tr _ => (∀ ev ∈ tr, AddrIs host port ev) →
      tr.filterMap tellsAddr = ((unmarshalProto f .observedAddrQuery codec.observedAddrQuery).map
        (addrAnswer host port)).toList ∧ tr.filterMap (asksAddr codec) = [] := by
  by_cases hf : f.type = .observedAddrQuery
  · simp only [handleControl, hf]
    unfold handleObservedAddrQuery
    cases unmarshalProto f .observedAddrQuery codec.observedAddrQuery with
    | none => exact fun _ => ⟨rfl, rfl⟩
    | some requestID =>
      refine Prog.all_call.mpr fun addr => ?_
      by_cases haddr : addr = joinHostPort host (itoa port)
      · rw [haddr, splitAddr_joinHostPort hhost hport]
        dsimp only
        rw [ofNat_toNat_emod hport]
        exact fun _ _ => ⟨rfl, rfl⟩
      · refine Prog.all_iff.mpr fun tr _ _ h => absurd ?_ haddr
        exact h _ List.mem_cons_self addr rfl
  · have hquiet : (handleControl cfg codec ac f).Only fun ev =>
        tellsAddr ev = none ∧ asksAddr codec ev = none :=
      Prog.Within.only (Prog.Sites.imp handleControl_within fun _ o h ans => by
        cases h <;> first | exact ⟨rfl, rfl⟩ | contradiction)
    refine Prog.All.imp hquiet fun tr _ htr _ => ⟨?_, ?_⟩
    · rw [List.filterMap_eq_nil_iff.mpr fun ev hev => (htr ev hev).1, unmarshalProto, if_neg hf]
      rfl
    · exact List.filterMap_eq_nil_iff.mpr fun ev hev => (htr ev hev).2

/-- **An agent is told its own address.** Each query that is read is answered, in
order and under its own request id, with the host and the port of the connection's
remote address – for any host that can be printed without brackets, an IPv6 address
with its zone among them. -/
theorem observedAddr_echoed (hhost : lbracket ∉ host ∧ rbracket ∉ host) (hport : port < 2 ^ 16) :
    (controlLoop cfg codec ac n).All fun tr _ => (∀ ev ∈ tr, AddrIs host port ev) →
      tr.filterMap tellsAddr = (tr.filterMap (asksAddr codec)).map (addrAnswer host port) := by
  have hround : (controlRound cfg codec ac).All fun tr _ => (∀ ev ∈ tr, AddrIs host port ev) →
      tr.filterMap tellsAddr
        = tr.filterMap fun ev => (asksAddr codec ev).map (addrAnswer host port) := by
    refine Prog.all_call.mpr fun r => ?_
    cases r with
    | error err => exact fun _ => rfl
    | ok f =>
      dsimp only
      rw [Prog.all_bind]
      refine Prog.All.imp (handleControl_tells hhost hport) fun tr _ htr =>
        Prog.all_call.mpr fun done => ?_
      rw [Prog.all_pure]
      intro haddr
      obtain ⟨htells, hasks⟩ := htr fun ev hev =>
        haddr ev (List.mem_cons_of_mem _ (List.mem_append_left _ hev))
      rw [filterMap_round (g := tellsAddr) rfl, filterMap_round rfl, htells,
        ← List.map_filterMap, hasks, List.map_nil, List.append_nil]
      rfl
  refine Prog.All.imp (Prog.all_rounds_filterMap hround) fun tr _ htr haddr => ?_
  rw [htr haddr, List.map_filterMap]

/-- A codec in which the payload of a query is its request id, in one byte. -/
def queryCodec : Codec where
  hello _ := none
  register _ := none
  observedAddrQuery payload := payload.head?.map fun b => UInt64.ofNat b.toNat
  candidateOffer _ := none
  candidateAnswer _ := none
  streamCheckpoint _ := none
  migrateToP2P _ := none
  forwardResume _ := none
  forwardRegister _ := none
  marshalBinary _ := none

/-- An environment in which every operation succeeds. The agent's URI and address, the frame
that comes, the connection at the other end and whether the context is done are given. -/
def answering (uri addr : GoString) (frame : CtrlFrame) (peer : Option AgentConn) (done : Bool) :
    ∀ o : ConnOp, o.Ans
  | .peerCertificates => [[uri]]
  | .remoteAddr => addr
  | .parseFrame => .ok frame
  | .lookupAgent _ => peer
  | .peerOf _ _ => peer.elim [] AgentConn.uri
  | .ctxDone => done
  | .acceptStream | .writeFrame _ | .writeCtrl _ _ | .writeData _ _ => .ok ()
  | .successors => []
  | .registerServiceRPC _ _ _ _ _ => .ok []
  | .deregisterAgentRPC _ _ _ => .ok ()
  | .pairRow _ => none
  | .armPending _ _ _ => .ok ()
  | .forgetAgent _ => (0 : ℕ)
  | .closeConn | .cancelConn | .registerAgent _ | .trackAgent _ | .untrackAgent _
  | .unregisterAgent _ | .noteMigrated _ _ | .startControlLoop _ | .startConsumerStream _
  | .startForwardedStream | .driveForwardResume _ _ => ()

/-- An agent behind an IPv6 address with a zone asks for its address. -/
def asking : ∀ o : ConnOp, o.Ans :=
  answering connC.uri (joinHostPort (go "fe80::1%eth0") (itoa 7000)) ⟨.observedAddrQuery, [5]⟩
    none true

/-- It is told host and port. -/
theorem observedAddr_echoed_zone :
    (((controlLoop relayR1 queryCodec connC 3).run asking).fst).filterMap tellsAddr
      = [(5, go "fe80::1%eth0", 7000)] := by
  have hall : (controlLoop relayR1 queryCodec connC 3).All fun tr _ =>
      (∀ ev ∈ tr, AddrIs (go "fe80::1%eth0") 7000 ev) → tr.filterMap tellsAddr
        = (tr.filterMap (asksAddr queryCodec)).map (addrAnswer (go "fe80::1%eth0") 7000) :=
    observedAddr_echoed (by decide) (by decide)
  refine (Prog.all_iff.mp hall _ _ (Prog.path_run asking _) ?_).trans rfl
  rintro ev hev a rfl
  exact Prog.ans_of_mem_run hev

end Echo

end ConnProc
