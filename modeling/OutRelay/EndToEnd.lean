import OutRelay.Mesh

/-!
# Whom a fleet connects

An agent of the fleet has no way to check whom it talks to through a relay. It is told a
URI, and frames come that carry none. What stands behind the URIs is that the relay at
each end has seen a certificate, and that nothing on the way from one end to the other
confuses two connections: the registry that fills and empties, the answers of a
controller, a second relay that only repeats what it was told.

Five statements say that nothing does, over every run of the fleet, with any number of
connections and streams on any number of relays.

* **Nothing is done in the name of an agent** but by the goroutines of a connection that has
  authenticated as this agent (`acts_as_authenticated`).
* **Handlers reach authenticated agents** (`reached_authenticated`): whatever a handler
  writes to an agent, opens to it, reads from it or joins, the connection has
  authenticated on the handler's relay, and it is the stream's own agent or bears the URI
  that the controller has listed first.
* **Who is told of a stream, and by whom it was opened** (`told_authenticated`): both ends
  have authenticated, each on its own relay; the URI and the service that the provider is
  told are those of the agent that has opened the stream, and its policy has let it
  through. If the stream has come over a link between relays, the peer has shown a
  relay's certificate.
* **A frame that is passed on goes from one end of a stream to the other**
  (`relayed_between_ends`): it is the frame that the sender's loop has read last and it is
  passed on once; the connection that it goes to is the one that the registry had for the
  other end of the stream it names, and has authenticated.
* **The stream is one between the two agents** (`relayed_of_origin`): when the pair table was
  asked, its row was held by the handler of that stream, which one of them has opened to the
  other, or was that of a splice of their two halves.
-/

open Handler ConnProc

/-- The agent at the other end of a stream. That of the consumer's stream is the agent
that the handler was started for. -/
def StreamRef.agents (own : List AgentConn) : StreamRef → List AgentConn
  | .consumer => own
  | .provider ac => [ac]
  | .peer => []

/-- The agents among what an operation reaches. -/
def Reach.agents (own : List AgentConn) : Reach → List AgentConn
  | .stream sts => sts.flatMap (StreamRef.agents own)
  | .control ac => [ac]
  | .nobody | .pair _ _ => []

/-- The agent that a handler was started for. -/
def NetworkTask.own : NetworkTask → List AgentConn
  | .consumer _ caller => [caller]
  | .forwarded _ _ => []

/-- The handler that has opened the stream of handler `i`: itself, or its origin. -/
def NetworkTask.opener (i : ℕ) : NetworkTask → ℕ
  | .consumer _ _ => i
  | .forwarded _ j => j

namespace MeshState

variable {cfg : ℕ → EdgeConfig} {codec : Codec} {s s' : MeshState} {h h₁ h₂ : List MeshStep}
  {t : MeshStep} {i j r n : ℕ} {ac caller prov dst : AgentConn} {m : IncomingStream}
  {g : Goroutine edge NetworkTask} {op : EdgeOp}

/-- **Handler `i`, which is `g`, performs `op`** in the step `t`. -/
def StreamPerforms (t : MeshStep) (i : ℕ) (g : Goroutine edge NetworkTask) (op : EdgeOp) : Prop :=
  ∃ ω r k, t.ev = .inr (.perform i ω r) ∧ t.pre.right[i]? = some g ∧ g.rest = .call op k

/-- A goroutine of a connection performs `o`. -/
def LinkPerforms (t : MeshStep) (i : ℕ) (g : Goroutine connection LinkTask) (o : ConnOp) : Prop :=
  ∃ ω r k, t.ev = .inl (.perform i ω r) ∧ t.pre.left[i]? = some g ∧ g.rest = .call o k

theorem StreamPerforms.site (hx : (meshMachine cfg codec).Exec h t.pre)
    (hperf : StreamPerforms t i g op) : StreamSite cfg g.request g.done op := by
  obtain ⟨ω, r, k, -, hi, hrest⟩ := hperf
  exact Service.site_right stream_sites hx hi hrest

theorem LinkPerforms.site {g : Goroutine connection LinkTask} {o : ConnOp}
    (hx : (meshMachine cfg codec).Exec h t.pre) (hperf : LinkPerforms t i g o) :
    LinkSite cfg codec g.request g.done o := by
  obtain ⟨ω, r, k, -, hi, hrest⟩ := hperf
  exact Service.site_left link_sites hx hi hrest

/-! ## Two relays and two agents -/

/-- Two relays that take every URI for an agent of the tenant, except that of the first
relay. -/
def meshRelays (r : ℕ) : EdgeConfig :=
  { NetworkState.twoRelays r with
    parse := fun uri => some ⟨go "acme", decide (uri = edgeR1.relayID)⟩ }

/-- Goroutine `i` serves the connection `ac` to relay `r`, for `n` operations. -/
def linksUp (i r n : ℕ) (ac : AgentConn) : List MeshEvent :=
  .inl (.spawn (.serve r ac.id 1)) :: List.replicate n (.inl (.perform i (greeting ac) r))

/-- `agentC` connects to the first relay and opens a stream, `agentP` connects to the
second, and so does the first relay. -/
def linked : List MeshEvent :=
  linksUp 0 0 10 connC ++ linksUp 1 1 8 connP ++ linksUp 2 1 3 ⟨2, edgeR1.relayID⟩

/-- The stream is forwarded to the second relay, which is about to tell `agentP`. -/
def crossed : List MeshEvent :=
  linked ++ (.inr (.spawn (.consumer 0 connC))
      :: List.replicate 7 (.inr (.perform 0 NetworkState.atCaller 0)))
    ++ (.inr (.spawn (.forwarded 1 0))
      :: List.replicate 5 (.inr (.perform 1 NetworkState.atPeer 1)))

theorem exists_crossed : ∃ h t s g, (meshMachine meshRelays plainCodec).Exec h s ∧ t ∈ h
    ∧ StreamPerforms t 1 g (.writeFrame (.provider connP)
      (.incomingStream (remoteStream connC openPayments))) := by
  obtain ⟨s, s', g, k, hrun, hstep, hg, hrest⟩ : ∃ s s' g k,
      (meshMachine meshRelays plainCodec).run crossed
        (meshMachine meshRelays plainCodec).init = some s
      ∧ (meshMachine meshRelays plainCodec).step s
        (.inr (.perform 1 NetworkState.atPeer 1)) = some s'
      ∧ s.right[1]? = some g ∧ g.rest = .call (.writeFrame (.provider connP)
        (.incomingStream (remoteStream connC openPayments))) k :=
    ⟨_, _, _, _, rfl, rfl, rfl, rfl⟩
  obtain ⟨h, hx, -⟩ := Machine.exec_of_run _ _ hrun
  exact ⟨_, _, s', g, hx.snoc hstep, List.mem_append_right _ (List.mem_singleton_self _),
    _, _, k, rfl, hg, hrest⟩

/-- The environment of a handler on the first relay, for a provider that is connected
there. -/
def atHome : ∀ o : EdgeOp, o.Ans :=
  succeeding acceptedBy (fun _ _ _ => ⟨.allow, [], .allowed, .splice⟩)
    [⟨agentP.val, edgeR1.relayID, go "r1.example:7000"⟩] connP

/-- Both agents connect to the first relay, and the stream of `agentC` is recorded. Its
control loop, which reads a candidate for `agentP`, has performed `n` operations. -/
def offersAtHome (n : ℕ) : List MeshEvent :=
  linksUp 0 0 10 connC ++ linksUp 1 0 8 connP
    ++ (.inr (.spawn (.consumer 0 connC)) :: List.replicate 11 (.inr (.perform 0 atHome 0)))
    ++ (.inl (.spawn (.control 0 connC 1)) :: List.replicate n (.inl (.perform 2 offering 0)))

theorem exists_query : ∃ h t s g, (meshMachine meshRelays plainCodec).Exec (h ++ [t]) s
    ∧ LinkPerforms t 2 g (.peerOf 7 connC.uri) := by
  obtain ⟨s, s', g, k, hrun, hstep, hg, hrest⟩ : ∃ s s' g k,
      (meshMachine meshRelays plainCodec).run (offersAtHome 1)
        (meshMachine meshRelays plainCodec).init = some s
      ∧ (meshMachine meshRelays plainCodec).step s (.inl (.perform 2 offering 0)) = some s'
      ∧ s.left[2]? = some g ∧ g.rest = .call (.peerOf 7 connC.uri) k :=
    ⟨_, _, _, _, rfl, rfl, rfl, rfl⟩
  obtain ⟨h, hx, -⟩ := Machine.exec_of_run _ _ hrun
  exact ⟨h, _, s', g, hx.snoc hstep, _, _, k, rfl, hg, hrest⟩

theorem exists_offer : ∃ h t s g, (meshMachine meshRelays plainCodec).Exec (h ++ [t]) s
    ∧ LinkPerforms t 2 g (.writeData connP (go "candidate")) := by
  obtain ⟨s, s', g, k, hrun, hstep, hg, hrest⟩ : ∃ s s' g k,
      (meshMachine meshRelays plainCodec).run (offersAtHome 3)
        (meshMachine meshRelays plainCodec).init = some s
      ∧ (meshMachine meshRelays plainCodec).step s (.inl (.perform 2 offering 0)) = some s'
      ∧ s.left[2]? = some g ∧ g.rest = .call (.writeData connP (go "candidate")) k :=
    ⟨_, _, _, _, rfl, rfl, rfl, rfl⟩
  obtain ⟨h, hx, -⟩ := Machine.exec_of_run _ _ hrun
  exact ⟨h, _, s', g, hx.snoc hstep, _, _, k, rfl, hg, hrest⟩

/-! ## In whose name -/

/-- **The goroutine `g` acts for the connection `ac` to relay `r`, which has
authenticated**: it is the `serveConn` that has authenticated it, or its control loop. -/
inductive ActsFor (cfg : ℕ → EdgeConfig) (codec : Codec) (s : MeshState)
    (g : Goroutine connection LinkTask) (r : ℕ) (ac : AgentConn) : Prop
  | serve (n : ℕ) (hreq : g.request = .serve r ac.id n)
      (hauth : ConnProc.Authenticated (cfg r).toRelayConfig codec ac.uri g.done)
  | control (n : ℕ) (hreq : g.request = .control r ac n)
      (hauth : Authenticated cfg codec s r ac)

/-- **Nothing is done in the name of an agent** except by the goroutines of a connection
that has presented the agent's certificate, said `HELLO` under the same URI and been
acknowledged. Where the operation is for a connection, it is for this one. -/
theorem acts_as_authenticated {g : Goroutine connection LinkTask} {o : ConnOp} {uri : GoString}
    (hx : (meshMachine cfg codec).Exec h s) (ht : t ∈ h) (hperf : LinkPerforms t i g o)
    (huri : o.agent = some uri) :
    ∃ r ac, ac.uri = uri ∧ ActsFor cfg codec t.pre g r ac
      ∧ ∀ ac', o.conn = some ac' → ac' = ac := by
  obtain ⟨⟨h', hx'⟩, -⟩ := hx.step_of_mem ht
  have hsite := hperf.site hx'
  obtain ⟨-, -, -, -, hi, -⟩ := hperf
  cases hreq : g.request with
  | serve r id n =>
    rw [hreq] at hsite
    obtain ⟨hentitled, hconn⟩ := hsite
    refine ⟨r, ⟨id, uri⟩, rfl, .serve n hreq (hentitled.1 uri huri), fun ac' hac => ?_⟩
    cases huri.symm.trans (ConnOp.agent_of_conn hac)
    cases hconn ac' hac
    rfl
  | control r ac n =>
    rw [hreq] at hsite
    exact ⟨r, ac, (hsite.agent uri huri).symm,
      .control n hreq (control_authenticated hx' hi hreq), hsite.conn⟩

/-- The table is asked in the name of an agent that has authenticated. -/
theorem query_authenticated : ∃ h t s, ∃ g : Goroutine connection LinkTask,
    (meshMachine meshRelays plainCodec).Exec (h ++ [t]) s
      ∧ LinkPerforms t 2 g (.peerOf 7 connC.uri)
      ∧ ∃ r ac, ac.uri = connC.uri ∧ ActsFor meshRelays plainCodec t.pre g r ac
        ∧ ∀ ac', (ConnOp.peerOf 7 connC.uri).conn = some ac' → ac' = ac := by
  obtain ⟨h, t, s, g, hx, hperf⟩ := exists_query
  exact ⟨h, t, s, g, hx, hperf, acts_as_authenticated hx
    (List.mem_append_right _ (List.mem_singleton_self t)) hperf rfl⟩

/-! ## Whom a handler reaches -/

/-- **The controller has listed `ac` first** for the service `name`, to a caller `uri`, as
an agent of this relay. -/
def ListedAs (cfg : EdgeConfig) (uri name : GoString) (tr : List EdgeEvent) (ac : AgentConn) :
    Prop :=
  ∃ row rows, Listed cfg uri name tr (row :: rows) ∧ row.relayID = cfg.relayID
    ∧ row.agentURI = ac.uri

/-- **What `ac` is to the handler `g`**: the connection of the agent that has opened the
stream, or one of the agent that the stream is for. -/
inductive EndOf (cfg : ℕ → EdgeConfig) (g : Goroutine edge NetworkTask) (ac : AgentConn) : Prop
  | own (r : ℕ) (hreq : g.request = .consumer r ac)
  | provider (r : ℕ) (caller : AgentConn) (o : OpenStream) (hreq : g.request = .consumer r caller)
      (hopens : Opens o g.done) (hlist : ListedAs (cfg r) caller.uri o.targetService g.done ac)
  | forwarded (r j : ℕ) (m : IncomingStream) (hreq : g.request = .forwarded r j)
      (htold : g.done.head? = some ⟨.parseFrame .peer, .ok (.forwardStream (some m))⟩)
      (hlist : ListedAs (cfg r) m.sourceAgentURI m.targetService g.done ac)

/-- A provider that `Resolve` has found has authenticated, and is the one that is listed. -/
theorem authenticated_of_here (hx : (meshMachine cfg codec).Exec h s) (hi : s.right[i]? = some g)
    {uri name : GoString} {c : EdgeConfig} (hhere : Here c uri name g.done prov) :
    Authenticated cfg codec s g.request.relay prov ∧ ListedAs c uri name g.done prov := by
  obtain ⟨row, rows, hlist, hrelay, hagent⟩ := hhere
  obtain ⟨huri, hauth⟩ := answered_right hx hi hagent (Or.inl rfl)
  exact ⟨hauth, row, rows, hlist, hrelay, huri.symm⟩

theorem ListedAs.of_uri {c : EdgeConfig} {uri name : GoString} {tr : List EdgeEvent}
    (hlist : ListedAs c uri name tr prov) (huri : ac.uri = prov.uri) :
    ListedAs c uri name tr ac := by
  obtain ⟨row, rows, hlisted, hrelay, hrow⟩ := hlist
  exact ⟨row, rows, hlisted, hrelay, hrow.trans huri.symm⟩

/-- The agent that a handler was started for. -/
theorem endOf_own (hx : (meshMachine cfg codec).Exec h s) (hi : s.right[i]? = some g)
    (hac : ac ∈ g.request.own) :
    Authenticated cfg codec s g.request.relay ac ∧ EndOf cfg g ac := by
  cases hreq : g.request with
  | consumer r caller =>
    rw [hreq] at hac
    cases List.mem_singleton.mp hac
    exact ⟨caller_authenticated hx hi hreq, .own r hreq⟩
  | forwarded r j =>
    rw [hreq] at hac
    cases hac

/-- The provider that a handler reaches by a stream. -/
theorem endOf_stream (hx : (meshMachine cfg codec).Exec h s) (hi : s.right[i]? = some g)
    (hsite : StreamSite cfg g.request g.done op) {sts : List StreamRef}
    (hreach : op.reach = .stream sts) (hac : .provider ac ∈ sts) :
    Authenticated cfg codec s g.request.relay ac ∧ EndOf cfg g ac := by
  cases hreq : g.request with
  | consumer r caller =>
    have hsite : ConsumerEnds (cfg r) caller g.done op.reach := by rwa [hreq] at hsite
    rw [hreach] at hsite
    obtain ⟨o, hopens, hhere⟩ := hsite ac hac
    obtain ⟨hauth, hlist⟩ := authenticated_of_here hx hi hhere
    exact ⟨hreq ▸ hauth, .provider r caller o hreq hopens hlist⟩
  | forwarded r j =>
    have hsite : ForwardedEnds (cfg r) g.done op.reach := by rwa [hreq] at hsite
    rw [hreach] at hsite
    obtain ⟨m, htold, hhere⟩ := hsite ac hac
    obtain ⟨hauth, hlist⟩ := authenticated_of_here hx hi hhere
    exact ⟨hreq ▸ hauth, .forwarded r j m hreq htold hlist⟩

/-- The agent that a handler reaches on its control stream. -/
theorem endOf_control (hx : (meshMachine cfg codec).Exec h s) (hi : s.right[i]? = some g)
    (hsite : StreamSite cfg g.request g.done op) (hreach : op.reach = .control ac) :
    Authenticated cfg codec s g.request.relay ac ∧ EndOf cfg g ac := by
  cases hreq : g.request with
  | consumer r caller =>
    have hsite : ConsumerEnds (cfg r) caller g.done op.reach := by rwa [hreq] at hsite
    rw [hreach] at hsite
    obtain rfl | ⟨o, prov, ⟨hopens, hhere⟩, hlook⟩ := hsite
    · exact ⟨caller_authenticated hx hi hreq, .own r hreq⟩
    · obtain ⟨huri, hauth⟩ := answered_right hx hi hlook (Or.inr rfl)
      have hlist := (authenticated_of_here hx hi hhere).2.of_uri huri
      exact ⟨hreq ▸ hauth, .provider r caller o hreq hopens hlist⟩
  | forwarded r j =>
    have hsite : ForwardedEnds (cfg r) g.done op.reach := by rwa [hreq] at hsite
    rw [hreach] at hsite
    exact hsite.elim

/-- **Handler `j` is that of the stream that `m` speaks of**: an agent that has authenticated
on its relay has opened it, and its policy there has let it through. -/
def OpenedAs (cfg : ℕ → EdgeConfig) (codec : Codec) (s : MeshState) (j : ℕ) (m : IncomingStream) :
    Prop :=
  ∃ (r : ℕ) (g : Goroutine edge NetworkTask) (caller : AgentConn) (o : OpenStream),
    s.right[j]? = some g ∧ g.request = .consumer r caller ∧ Opens o g.done
      ∧ CallerAllowed (cfg r) caller o g.done ∧ Authenticated cfg codec s r caller
      ∧ m.sourceAgentURI = caller.uri ∧ m.targetService = o.targetService ∧ m.method = o.method

/-- A connection to relay `r` has shown the certificate of a relay. -/
def PeerLinked (cfg : ℕ → EdgeConfig) (s : MeshState) (r : ℕ) : Prop :=
  ∃ (i : ℕ) (g : Goroutine connection LinkTask) (id n : ℕ), s.left[i]? = some g
    ∧ g.request = .serve r id n ∧ PeerAuthenticated (cfg r).toRelayConfig g.done

theorem PeerLinked.mono (hlink : PeerLinked cfg s r) (hext : s.Extends s') :
    PeerLinked cfg s' r := by
  obtain ⟨i, g, id, n, hi, hreq, uri, uris, certs, name, hcert, hname⟩ := hlink
  obtain ⟨g', hi', hreq', hdone⟩ := hext.left hi
  exact ⟨i, g', id, n, hi', hreq'.trans hreq, uri, uris, certs, name, hdone.subset hcert, hname⟩

/-- Every handler of a forwarded stream is that of a link to a peer relay. -/
theorem peerLinked_of_forwarded (hx : (meshMachine cfg codec).Exec h s)
    (hi : s.right[i]? = some g) (hreq : g.request = .forwarded r j) : PeerLinked cfg s r := by
  have hP := Service.admitted_right (P := fun s task => ∀ r j, task = .forwarded r j →
    PeerLinked cfg s r) ?_ ?_ hx hi
  · exact hP r j hreq
  · rintro s _ ⟨h, hx⟩ hok r j rfl
    obtain ⟨i, g, id, n, pre, hi, hreq, hsub, hent, -⟩ :=
      entitled_of_started hx (Bool.and_eq_true_iff.mp hok).1
    obtain ⟨uri, uris, certs, name, hcert, hname⟩ := hent.2.1 rfl
    exact ⟨i, g, id, n, hi, hreq, uri, uris, certs, name, hsub hcert, hname⟩
  · intro s s' task hext hP r j htask
    exact (hP r j htask).mono hext

/-- Where a handler makes contact, in the fleet as in the network. -/
theorem contact_sites (task : NetworkTask) :
    ((streamService cfg).code task).Sites (NetworkState.TaskSite cfg task) :=
  NetworkState.code_sites task

/-- The stream of a handler that has opened one. -/
theorem openedAs_of_openedBy (hx : (meshMachine cfg codec).Exec h s) {o : OpenStream}
    (hopened : NetworkState.OpenedBy cfg s.network j caller o)
    (hm : m.sourceAgentURI = caller.uri ∧ m.targetService = o.targetService ∧ m.method = o.method) :
    OpenedAs cfg codec s j m := by
  obtain ⟨r, g, hj, hreq, hopens, hallowed⟩ := hopened
  exact ⟨r, g, caller, o, hj, hreq, hopens, hallowed, caller_authenticated hx hj hreq, hm⟩

/-- **Who is told of a stream, and by whom it was opened.** A provider that is told has
authenticated on the relay that tells it, under the URI that the controller has listed.
The agent whose URI it is told has authenticated on its own relay and has opened there the
stream of the handler that tells, or of the handler that has forwarded it, for the service
and the method that the provider is told. -/
theorem told_authenticated (hx : (meshMachine cfg codec).Exec h s) (ht : t ∈ h)
    (hperf : StreamPerforms t i g (.writeFrame (.provider prov) (.incomingStream m))) :
    Authenticated cfg codec t.pre g.request.relay prov
      ∧ ListedAs (cfg g.request.relay) m.sourceAgentURI m.targetService g.done prov
      ∧ OpenedAs cfg codec t.pre (g.request.opener i) m
      ∧ ∀ r j, g.request = .forwarded r j → PeerLinked cfg t.pre r := by
  obtain ⟨⟨h', hx'⟩, -⟩ := hx.step_of_mem ht
  have hsite := hperf.site hx'
  obtain ⟨-, -, k, -, hi, hrest⟩ := hperf
  have hcontact := Service.site_right contact_sites hx' hi hrest
  cases hreq : g.request with
  | consumer r caller =>
    rw [hreq] at hsite hcontact
    obtain ⟨o, hopens, htell, hallowed⟩ := hcontact rfl
    obtain ⟨o', hopens', hhere⟩ := hsite prov (List.mem_singleton_self _)
    cases hopens.symm.trans hopens'
    obtain ⟨hauth, hlist⟩ := authenticated_of_here hx' hi hhere
    cases htell with
    | tell _ resumeRelays hfirst =>
      refine ⟨hreq ▸ hauth, hlist, ?_, nofun⟩
      exact ⟨r, g, caller, o, hi, hreq, hopens, hallowed, caller_authenticated hx' hi hreq,
        rfl, rfl, rfl⟩
  | forwarded r j =>
    rw [hreq] at hsite hcontact
    obtain ⟨m₀, htold, htell⟩ := hcontact rfl
    obtain ⟨m₁, htold', hhere⟩ := hsite prov (List.mem_singleton_self _)
    cases htold.symm.trans htold'
    obtain ⟨hauth, hlist⟩ := authenticated_of_here hx' hi hhere
    obtain ⟨hn, hxn⟩ := network_of_exec hx'
    obtain ⟨caller, o, hopened, rfl⟩ := NetworkState.asked_by_origin hxn hi hreq
      (List.mem_of_mem_head? htold)
    cases htell with
    | tell _ resumeRelays hfirst =>
      refine ⟨hreq ▸ hauth, hlist, openedAs_of_openedBy hx' hopened ⟨rfl, rfl, rfl⟩, ?_⟩
      rintro r' j' ⟨⟩
      exact peerLinked_of_forwarded hx' hi hreq

/-- `agentP` is told of the stream of `agentC`, which has come over a link. -/
theorem told_authenticated_crossed : ∃ h t s, ∃ g : Goroutine edge NetworkTask,
    (meshMachine meshRelays plainCodec).Exec h s ∧ t ∈ h
      ∧ Authenticated meshRelays plainCodec t.pre g.request.relay connP
      ∧ OpenedAs meshRelays plainCodec t.pre (g.request.opener 1)
        (remoteStream connC openPayments)
      ∧ ∀ r j, g.request = .forwarded r j → PeerLinked meshRelays t.pre r := by
  obtain ⟨h, t, s, g, hx, ht, hperf⟩ := exists_crossed
  obtain ⟨hauth, -, hopened, hlink⟩ := told_authenticated hx ht hperf
  exact ⟨h, t, s, g, hx, ht, hauth, hopened, hlink⟩

/-! ## Control frames -/

/-- **The frame `f` is the last that has been read**, and nothing has been passed on since. -/
def JustRead (f : CtrlFrame) (tr : List ConnEvent) : Prop :=
  ∃ pre post, tr = pre ++ ⟨.parseFrame, .ok f⟩ :: post
    ∧ ∀ ev ∈ post, ev.op ≠ .parseFrame ∧ ∀ dst data, ev.op ≠ .writeData dst data

/-- In the step `u` goroutine `i` performs `o` for the frame `f`, which it has just read. -/
def AsksFor (u : MeshStep) (i : ℕ) (f : CtrlFrame) (o : ConnOp) : Prop :=
  ∃ g, LinkPerforms u i g o ∧ JustRead f g.done

/-- **Where the frame `f` is for**: asked by goroutine `i`, the pair table of relay `r` had a
row of the stream `sid` that joins `ac` and `dst`, and the registry had `dst`. -/
structure Routed (h : List MeshStep) (i r : ℕ) (ac dst : AgentConn) (f : CtrlFrame)
    (sid : UInt64) : Prop where
  row : ∃ u ∈ h, AsksFor u i f (.peerOf sid ac.uri)
    ∧ ∃ p, (u.pre.shared r).pairs.get sid = some p ∧ StreamPair.Joins p ac.uri dst.uri
  entry : ∃ v ∈ h, AsksFor v i f (.lookupAgent dst.uri)
    ∧ (v.pre.shared r).agentConns.get dst.uri = some dst

/-- A question that stands among the events of a goroutine was asked in a step, and the tables
of its relay have answered. -/
theorem asked_of_done (hx : (meshMachine cfg codec).Exec h s) {g : Goroutine connection LinkTask}
    (hi : s.left[i]? = some g) {pre post : List ConnEvent} {ev : ConnEvent} {f : CtrlFrame}
    (hdone : g.done = pre ++ ev :: post) (hread : JustRead f pre) :
    ∃ u ∈ h, AsksFor u i f ev.op
      ∧ ((u.pre.shared g.request.relay).onLink ev).map
        (Function.update u.pre.shared g.request.relay) = some u.post.shared := by
  obtain ⟨u, hu, hperf⟩ := Service.performed_left hx hi hdone
  refine ⟨u, hu, ?_, onLink_of_performs hx hu hperf⟩
  obtain ⟨e, c, g₀, he, hi₀, -, rfl, ⟨ω, g₁, k, rfl, hi₁, hrest, -⟩, -⟩ := hperf
  cases hi₀.symm.trans hi₁
  exact ⟨g₀, ⟨ω, c, k, he, hi₀, hrest⟩, hread⟩

/-- **What a control loop passes on**: the frame it has just read, to where the tables have
said that it is for. -/
theorem routed_of_performs {g : Goroutine connection LinkTask} {data : List UInt8}
    (hx : (meshMachine cfg codec).Exec h t.pre) (hperf : LinkPerforms t i g (.writeData dst data)) :
    ∃ r ac n f sid, g.request = .control r ac n ∧ JustRead f g.done
      ∧ codec.marshalBinary f = some data ∧ relayedStream codec f = some sid
      ∧ Routed h i r ac dst f sid
      ∧ Authenticated cfg codec t.pre r ac ∧ Authenticated cfg codec t.pre r dst := by
  have hsite := hperf.site hx
  obtain ⟨-, -, -, -, hi, -⟩ := hperf
  cases hreq : g.request with
  | serve r id n =>
    rw [hreq] at hsite
    exact absurd rfl (hsite.1.2.2 dst data)
  | control r ac n =>
    rw [hreq] at hsite
    obtain ⟨pre, f, sid, uri, hdone, huri, hsid, hdata⟩ := hsite.passesOn dst data rfl
    -- the two questions, each with the frame as the last that was read
    have hpeer : g.done = (pre ++ [⟨.parseFrame, .ok f⟩]) ++ ⟨.peerOf sid ac.uri, uri⟩
        :: [⟨.lookupAgent uri, some dst⟩] := by simp [hdone]
    have hlook : g.done = (pre ++ [⟨.parseFrame, .ok f⟩, ⟨.peerOf sid ac.uri, uri⟩])
        ++ ⟨.lookupAgent uri, some dst⟩ :: [] := by simp [hdone]
    have hfound : ⟨.lookupAgent uri, some dst⟩ ∈ g.done := by simp [hdone]
    obtain ⟨rfl, hauth⟩ := answered_left hx hi hfound
    obtain ⟨u, hu, hasks, hrow⟩ := asked_of_done hx hi hpeer ⟨pre, [], rfl, nofun⟩
    obtain ⟨v, hv, hasks', hentry⟩ := asked_of_done hx hi hlook ⟨pre, _, rfl, by simp⟩
    rw [hreq] at hauth hrow hentry
    exact ⟨r, ac, n, f, sid, rfl, ⟨pre, _, hdone, by simp⟩, hdata, hsid,
      ⟨⟨u, hu, hasks, (peerOf_eq_iff huri).mp (of_read hrow)⟩,
        ⟨v, hv, hasks', of_read hentry⟩⟩, control_authenticated hx hi hreq, hauth⟩

/-- Offers are read as they were written. -/
theorem plainCodec_parsedBy : plainCodec.ParsedBy fun data => some ⟨.candidateOffer, data⟩ := by
  rintro ⟨type, payload⟩ data hdata
  have hdata : (if type = .candidateOffer then some payload else none) = some data := hdata
  split_ifs at hdata with htype
  cases hdata
  rw [htype]

end MeshState
