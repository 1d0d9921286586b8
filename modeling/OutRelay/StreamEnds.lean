import OutRelay.StreamVerdicts

/-!
# Between whom a stream is handled

A stream handler has to do with agents: it opens a stream to one and reads its answer,
it writes on control streams, it joins two streams, and it enters a pair of agents in
the pair table. A connection is nothing it could make up. The caller's it was started
with, and every other it has from the registry, where it has asked for a URI.

This module says which ones. The handler of an agent's stream opens a stream to the
provider that the controller lists first for the service asked for, and to no other; its
control frames go to the caller, or to what the registry has for that provider's URI; and
it records the caller and this provider, under the id in the `OPEN_STREAM`
(`handleConsumerStream_ends`). The handler of a forwarded stream opens a stream to the
provider that is listed first for what it was told, and that is all
(`handleForwardedStream_ends`).
-/

/-- How an operation has to do with agents. -/
inductive Reach
  | nobody
  | stream (sts : List StreamRef)
  | control (ac : AgentConn)
  | pair (sid : UInt64) (p : StreamPair)

/-- **What an operation reaches**: the ends of streams, an agent by its control stream, or
a row of the pair table. -/
def EdgeOp.reach : EdgeOp → Reach
  | .parseFrame st | .writeFrame st _ | .closeStream st => .stream [st]
  | .openAgentStream ac => .stream [.provider ac]
  | .drain a b | .splice a b => .stream [a, b]
  | .resumeHalf _ _ => .stream [.consumer]
  | .writeCtrl ac _ => .control ac
  | .recordPair sid p => .pair sid p
  | _ => .nobody

namespace Handler

variable {cfg : EdgeConfig} {caller prov : AgentConn} {o : OpenStream} {m : IncomingStream}
  {tr tr' : List EdgeEvent} {op : EdgeOp} {α β : Type}

/-! ## Once the provider is known -/

/-- **What is done for the stream `o` between two agents.** -/
def Serves (caller prov : AgentConn) (o : OpenStream) (tr : List EdgeEvent) : Reach → Prop
  | .nobody => True
  | .stream sts => ∀ ac, .provider ac ∈ sts → ac = prov
  | .control ac => ac = caller ∨ ⟨.lookupAgent prov.uri, some ac⟩ ∈ tr
  | .pair sid p => sid = o.streamID ∧ p = ⟨caller.uri, prov.uri⟩

/-- A part of a handler that serves the stream, with the events before an operation. -/
abbrev Serving (caller prov : AgentConn) (o : OpenStream) (p : Handler α) : Prop :=
  p.Sites fun tr op => Serves caller prov o tr op.reach

theorem serves_own : Serves caller prov o tr (.stream [.consumer]) := fun _ hac => by simp at hac

theorem serves_provider : Serves caller prov o tr (.stream [.provider prov]) :=
  fun _ hac => by simpa using hac

theorem serves_both : Serves caller prov o tr (.stream [.consumer, .provider prov]) :=
  fun _ hac => by simpa using hac

theorem Serves.mono {x : Reach} (h : Serves caller prov o tr x) (hsub : tr ⊆ tr') :
    Serves caller prov o tr' x := by
  cases x with
  | nobody => trivial
  | stream sts => exact h
  | control ac => exact h.imp_right fun h => hsub h
  | pair sid p => exact h

/-- Parts of a handler, one after the other. -/
theorem Serving.bind {p : Handler α} {f : α → Handler β} (hp : Serving caller prov o p)
    (hf : ∀ a, Serving caller prov o (f a)) : Serving caller prov o (p >>= f) :=
  Prog.sites_bind.mpr ⟨hp, Prog.all_iff.mpr fun _ a _ =>
    Prog.Sites.imp (hf a) fun _ _ h => h.mono (List.subset_append_right _ _)⟩

theorem Serving.call {op : EdgeOp} {k : op.Ans → Handler β} (hop : Serves caller prov o [] op.reach)
    (hk : ∀ r, Serving caller prov o (k r)) : Serving caller prov o (perform op >>= k) :=
  Serving.bind (Prog.sites_perform.mpr hop) hk

theorem serving_perform {op : EdgeOp} (hop : Serves caller prov o [] op.reach) :
    Serving caller prov o (perform op) := Prog.sites_perform.mpr hop

theorem rejectConsumer_serving {code : UInt32} {reason : GoString} :
    Serving caller prov o (rejectConsumer caller .consumer o.streamID code reason) := by
  refine Serving.call serves_own fun _ => ?_
  dsimp only
  split_ifs
  · exact Prog.sites_pure
  · exact Serving.call (Or.inl rfl) fun _ => Prog.sites_pure

theorem openIncoming_serving {service method uri : GoString} {streamID : UInt64} :
    Serving caller prov o (openIncoming prov service method uri streamID) := by
  refine Serving.call serves_provider fun r => ?_
  cases r with
  | error err => exact Prog.sites_pure
  | ok u =>
    refine Serving.call trivial fun _ => Serving.call serves_provider fun r => ?_
    cases r with
    | error err => exact Serving.call serves_provider fun _ => Prog.sites_pure
    | ok u => exact Prog.sites_pure

theorem grantForward_serving : Serving caller prov o (grantForward caller prov o) := by
  refine Prog.sites_call.mpr ⟨trivial, fun r => ?_⟩
  cases r with
  | none =>
    exact Prog.Sites.imp rejectConsumer_serving fun _ _ h => h.mono (List.subset_cons_self ..)
  | some provAC =>
    refine Prog.sites_call.mpr ⟨trivial, fun _ => Prog.sites_call.mpr ⟨trivial, fun _ => ?_⟩⟩
    -- the two deferred calls reach nobody
    refine Prog.sites_bind.mpr ⟨Prog.sites_bind.mpr ⟨?_, Prog.all_iff.mpr fun _ _ _ =>
      Prog.sites_perform.mpr trivial⟩, Prog.all_iff.mpr fun _ _ _ =>
      Prog.sites_perform.mpr trivial⟩
    refine Prog.sites_call.mpr ⟨trivial, fun _ => Prog.sites_call.mpr ⟨trivial, fun _ => ?_⟩⟩
    refine Prog.sites_call.mpr ⟨Or.inl rfl, fun r => ?_⟩
    cases r with
    | error err => exact Prog.sites_pure
    | ok u =>
      refine Prog.sites_call.mpr ⟨Or.inr List.mem_cons_self, fun r => ?_⟩
      cases r with
      | error err => exact Prog.sites_pure
      | ok u => exact Prog.sites_perform.mpr serves_both

theorem spliceStreams_serving : Serving caller prov o (spliceStreams caller prov o) := by
  refine Prog.sites_call.mpr ⟨trivial, fun provAC => Prog.sites_call.mpr ⟨trivial, fun _ => ?_⟩⟩
  refine Prog.sites_call.mpr ⟨Or.inl rfl, fun _ => ?_⟩
  refine Prog.sites_bind.mpr ⟨?_, Prog.all_iff.mpr fun _ _ _ =>
    Prog.sites_call.mpr ⟨serves_both, fun _ => Prog.sites_pure⟩⟩
  cases provAC with
  | none => exact Prog.sites_pure
  | some provAC =>
    exact Prog.sites_call.mpr ⟨Or.inr List.mem_cons_self, fun _ => Prog.sites_pure⟩

theorem awaitAccept_serving {relayMode : RelayMode} :
    Serving caller prov o (awaitAccept cfg caller prov o relayMode) := by
  refine Serving.call serves_provider fun r => ?_
  match r with
  | .ok .streamAccept =>
    dsimp only
    split_ifs
    · exact grantForward_serving
    · exact spliceStreams_serving
  | .ok (.streamReject _ _) => exact rejectConsumer_serving
  | .error _ | .ok (.openStream _) | .ok (.forwardStream _) | .ok (.streamResume _)
  | .ok (.migrateToRelay _) | .ok (.other _) => exact Prog.sites_pure

theorem dispatchStream_serving {p2pMode : P2PMode} {relayMode : RelayMode} :
    Serving caller prov o (dispatchStream cfg caller prov o p2pMode relayMode) := by
  refine Serving.bind openIncoming_serving fun r => ?_
  cases r with
  | error err => exact rejectConsumer_serving
  | ok u =>
    refine Serving.bind (Serving.call ⟨rfl, rfl⟩ fun recorded => ?_) fun _ =>
      serving_perform serves_provider
    split_ifs
    · refine Serving.bind (Serving.bind (Serving.call trivial fun _ => awaitAccept_serving)
        fun _ => serving_perform trivial) fun _ => serving_perform trivial
    · exact Serving.bind awaitAccept_serving fun _ => serving_perform trivial
    · exact rejectConsumer_serving

/-! ## The handler of an agent's stream -/

/-- The handler has read `OPEN_STREAM`. -/
def Opens (o : OpenStream) (tr : List EdgeEvent) : Prop :=
  tr.head? = some ⟨.parseFrame .consumer, .ok (.openStream (some o))⟩

theorem Opens.append (h : Opens o tr) (tr' : List EdgeEvent) : Opens o (tr ++ tr') := by
  obtain ⟨rest, rfl⟩ := List.head?_eq_some_iff.mp h
  rfl

/-- **The stream `o` of `caller` goes to the provider `prov`** on this relay: it is the
first that the controller lists for the service. -/
def GoesTo (cfg : EdgeConfig) (caller prov : AgentConn) (o : OpenStream) (tr : List EdgeEvent) :
    Prop :=
  Opens o tr ∧ Here cfg caller.uri o.targetService tr prov

theorem GoesTo.mono (h : GoesTo cfg caller prov o tr) (hle : tr <+: tr') :
    GoesTo cfg caller prov o tr' := by
  obtain ⟨rest, rfl⟩ := hle
  exact ⟨h.1.append rest, h.2.mono (List.subset_append_left _ _)⟩

/-- **Whom the handler of an agent's stream reaches, and whom it records.** -/
def ConsumerEnds (cfg : EdgeConfig) (caller : AgentConn) (tr : List EdgeEvent) : Reach → Prop
  | .nobody => True
  | .stream sts => ∀ ac, .provider ac ∈ sts → ∃ o, GoesTo cfg caller ac o tr
  | .control ac => ac = caller ∨ ∃ o prov, GoesTo cfg caller prov o tr
    ∧ ⟨.lookupAgent prov.uri, some ac⟩ ∈ tr
  | .pair sid p => ∃ o prov, GoesTo cfg caller prov o tr ∧ sid = o.streamID
    ∧ p = ⟨caller.uri, prov.uri⟩

theorem consumerEnds_own : ConsumerEnds cfg caller tr (.stream [.consumer]) :=
  fun _ hac => by simp at hac

theorem Serves.consumerEnds {x : Reach} (h : Serves caller prov o tr x)
    (hto : GoesTo cfg caller prov o tr) : ConsumerEnds cfg caller tr x := by
  cases x with
  | nobody => trivial
  | stream sts =>
    intro ac hac
    cases h ac hac
    exact ⟨o, hto⟩
  | control ac => exact h.imp_right fun h => ⟨o, prov, hto, h⟩
  | pair sid p => exact ⟨o, prov, hto, h⟩

/-- What is done before the provider is known: the caller may be reached on its control
stream. -/
def Aside (caller : AgentConn) : Reach → Prop
  | .nobody => True
  | .stream sts => ∀ ac, .provider ac ∉ sts
  | .control ac => ac = caller
  | .pair _ _ => False

theorem Aside.consumerEnds {x : Reach} (h : Aside caller x) : ConsumerEnds cfg caller tr x := by
  cases x with
  | nobody => trivial
  | stream sts => exact fun ac hac => absurd hac (h ac)
  | control ac => exact Or.inl h
  | pair sid p => exact h.elim

theorem aside_own : Aside caller (.stream [.consumer]) := fun _ hac => by simp at hac

theorem aside_peer : Aside caller (.stream [.peer]) := fun _ hac => by simp at hac

theorem aside_splice : Aside caller (.stream [.consumer, .peer]) := fun _ hac => by simp at hac

theorem consumerEnds_of_aside {p : Handler α} (hp : p.Within fun op => Aside caller op.reach) :
    p.Sites fun tr' op => ConsumerEnds cfg caller (tr ++ tr') op.reach :=
  Prog.Sites.imp hp fun _ _ h => h.consumerEnds

theorem rejectConsumer_aside {sid : UInt64} {code : UInt32} {reason : GoString} :
    (rejectConsumer caller .consumer sid code reason).Within fun op => Aside caller op.reach := by
  refine Prog.Within.bind (Prog.Within.bind (Prog.within_perform aside_own) fun _ =>
    Prog.within_pure) fun _ => ?_
  dsimp only
  split_ifs
  · exact Prog.within_pure
  · exact Prog.Within.bind (Prog.within_perform rfl) fun _ => Prog.within_pure

theorem forwardToPeer_aside {remote : Remote} :
    (forwardToPeer caller o remote).Within fun op => Aside caller op.reach := by
  refine Prog.Within.bind (Prog.within_perform trivial) fun r => ?_
  cases r with
  | error err => exact rejectConsumer_aside
  | ok u =>
    refine Prog.Within.bind (forwardStream_within trivial (fun _ => aside_peer) aside_peer
      aside_peer) fun r => ?_
    cases r with
    | error err =>
      exact Prog.Within.bind (Prog.within_perform trivial) fun _ => rejectConsumer_aside
    | ok u =>
      exact Prog.Within.bind (Prog.Within.bind (Prog.within_perform aside_splice) fun _ =>
        Prog.within_pure) fun _ => Prog.within_perform aside_peer

theorem resolve_aside {uri name : GoString} :
    (resolve cfg uri name).Within fun op => Aside caller op.reach :=
  resolve_within (fun _ _ _ => trivial) fun _ => trivial

theorem routeStream_ends {p2pMode : P2PMode} {relayMode : RelayMode} (hopens : Opens o tr) :
    (routeStream cfg caller o p2pMode relayMode).Sites fun tr' op =>
      ConsumerEnds cfg caller (tr ++ tr') op.reach := by
  refine Prog.sites_bind.mpr ⟨consumerEnds_of_aside resolve_aside, Prog.All.imp resolve_found
    fun tr₁ r hfound => ?_⟩
  simp only [← List.append_assoc]
  match r with
  | .error (.providerRemote remote) =>
    dsimp only
    split_ifs
    · exact consumerEnds_of_aside rejectConsumer_aside
    · exact consumerEnds_of_aside forwardToPeer_aside
  | .error .noTenant | .error (.rpcFailed _) | .error .serviceNotFound =>
    exact consumerEnds_of_aside rejectConsumer_aside
  | .ok prov =>
    have hto : GoesTo cfg caller prov o (tr ++ tr₁) :=
      ⟨hopens.append tr₁, Here.mono (List.subset_append_right _ _) hfound⟩
    have hdispatch : ∀ pre p2pMode, (dispatchStream cfg caller prov o p2pMode relayMode).Sites
        fun tr' op => ConsumerEnds cfg caller (tr ++ tr₁ ++ (pre ++ tr')) op.reach :=
      fun pre p2pMode => Prog.Sites.imp dispatchStream_serving fun tr' op h =>
        (h.mono fun ev hev => List.mem_append_right _ (List.mem_append_right _ hev)).consumerEnds
          (hto.mono (List.prefix_append _ _))
    dsimp only
    split_ifs
    · refine Prog.sites_call.mpr ⟨trivial, fun callee => Prog.sites_call.mpr ⟨trivial, fun _ => ?_⟩⟩
      split_ifs
      · exact Prog.Sites.imp rejectConsumer_aside fun _ _ h => h.consumerEnds
      · exact hdispatch [_, _] _
    · exact hdispatch [] _

theorem handleOpenStream_ends (hopens : Opens o tr) :
    (handleOpenStream cfg caller o).Sites fun tr' op =>
      ConsumerEnds cfg caller (tr ++ tr') op.reach := by
  unfold handleOpenStream
  split_ifs
  · refine Prog.sites_call.mpr ⟨trivial, fun dec => Prog.sites_call.mpr ⟨trivial, fun _ => ?_⟩⟩
    split_ifs
    · exact Prog.Sites.imp rejectConsumer_aside fun _ _ h => h.consumerEnds
    · have hopens := hopens.append [⟨.evaluate caller.uri o.targetService o.method, dec⟩,
        ⟨.recordAudit caller.uri o.targetService o.method dec, ()⟩]
      refine Prog.Sites.imp (routeStream_ends hopens) fun tr' op h => ?_
      rwa [List.append_assoc] at h
  · exact routeStream_ends hopens

/-- **The handler of an agent's stream has to do with its caller and with the provider
that the controller lists**, and with nobody else. -/
theorem handleConsumerStream_ends :
    (handleConsumerStream cfg caller).Sites fun tr op => ConsumerEnds cfg caller tr op.reach := by
  refine Prog.sites_bind.mpr ⟨Prog.sites_call.mpr ⟨consumerEnds_own, fun r => ?_⟩,
    Prog.all_iff.mpr fun _ _ _ => Prog.sites_perform.mpr consumerEnds_own⟩
  match r with
  | .ok (.openStream (some o)) =>
    have hopens : Opens o [⟨.parseFrame .consumer, .ok (.openStream (some o))⟩] := rfl
    exact handleOpenStream_ends hopens
  | .ok (.streamResume _) | .ok (.migrateToRelay _) =>
    exact Prog.sites_perform.mpr consumerEnds_own
  | .error err | .ok (.openStream none) | .ok (.forwardStream _) | .ok .streamAccept
  | .ok (.streamReject _ _) | .ok (.other _) => exact Prog.sites_pure

/-! ## The handler of a forwarded stream -/

/-- **Whom the handler of a forwarded stream reaches**: the provider that is listed
first for what it was told. -/
def ForwardedEnds (cfg : EdgeConfig) (tr : List EdgeEvent) : Reach → Prop
  | .nobody => True
  | .stream sts => ∀ ac, .provider ac ∈ sts → ∃ m,
    tr.head? = some ⟨.parseFrame .peer, .ok (.forwardStream (some m))⟩
      ∧ Here cfg m.sourceAgentURI m.targetService tr ac
  | .control _ | .pair _ _ => False

theorem forwardedEnds_peer : ForwardedEnds cfg tr (.stream [.peer]) :=
  fun _ hac => by simp at hac

/-- What is done for a forwarded stream: the provider may be reached by a stream. -/
def ServesPeer (prov : AgentConn) : Reach → Prop
  | .nobody => True
  | .stream sts => ∀ ac, .provider ac ∈ sts → ac = prov
  | .control _ | .pair _ _ => False

theorem servesPeer_peer : ServesPeer prov (.stream [.peer]) := fun _ hac => by simp at hac

theorem servesPeer_provider : ServesPeer prov (.stream [.provider prov]) :=
  fun _ hac => by simpa using hac

theorem servesPeer_splice : ServesPeer prov (.stream [.peer, .provider prov]) :=
  fun _ hac => by simpa using hac

theorem ServesPeer.forwardedEnds {x : Reach} (h : ServesPeer prov x)
    (hhead : tr.head? = some ⟨.parseFrame .peer, .ok (.forwardStream (some m))⟩)
    (hhere : Here cfg m.sourceAgentURI m.targetService tr prov) : ForwardedEnds cfg tr x := by
  cases x with
  | nobody => trivial
  | stream sts =>
    intro ac hac
    cases h ac hac
    exact ⟨m, hhead, hhere⟩
  | control ac => exact h
  | pair sid p => exact h

theorem answerPeer_servesPeer : (answerPeer prov).Within fun op => ServesPeer prov op.reach := by
  refine Prog.Within.bind (Prog.within_perform servesPeer_provider) fun r => ?_
  match r with
  | .ok .streamAccept =>
    refine Prog.Within.bind (Prog.within_perform servesPeer_peer) fun r => ?_
    cases r with
    | error err => exact Prog.within_pure
    | ok u =>
      exact Prog.Within.bind (Prog.within_perform servesPeer_splice) fun _ => Prog.within_pure
  | .error _ | .ok (.streamReject _ _) | .ok (.openStream _) | .ok (.forwardStream _)
  | .ok (.streamResume _) | .ok (.migrateToRelay _) | .ok (.other _) =>
    exact Prog.Within.bind (Prog.within_perform servesPeer_peer) fun _ => Prog.within_pure

theorem dispatchForwarded_ends :
    (dispatchForwarded cfg m).Sites fun tr op =>
      ForwardedEnds cfg (⟨.parseFrame .peer, .ok (.forwardStream (some m))⟩ :: tr) op.reach := by
  have hresolve : (resolve cfg m.sourceAgentURI m.targetService).Within fun op =>
      op.reach = .nobody := resolve_within (fun _ _ _ => rfl) fun _ => rfl
  refine Prog.sites_bind.mpr ⟨Prog.Sites.imp hresolve fun _ _ h => ?_,
    Prog.All.imp resolve_found fun tr₁ r hfound => ?_⟩
  · rw [h]
    trivial
  · cases r with
    | error err => exact Prog.sites_call.mpr ⟨forwardedEnds_peer, fun _ => Prog.sites_pure⟩
    | ok prov =>
      refine Prog.Sites.imp (R := fun _ (op : EdgeOp) => ServesPeer prov op.reach) ?_
        fun tr' op h => h.forwardedEnds rfl (Here.mono (fun _ hev =>
          List.mem_cons_of_mem _ (List.mem_append_left _ hev)) hfound)
      refine Prog.Within.bind (openIncoming_within servesPeer_provider trivial
        (fun _ => servesPeer_provider) servesPeer_provider) fun r => ?_
      cases r with
      | error err =>
        exact Prog.Within.bind (Prog.within_perform servesPeer_peer) fun _ => Prog.within_pure
      | ok u =>
        exact Prog.Within.bind answerPeer_servesPeer fun _ =>
          Prog.within_perform servesPeer_provider

/-- **The handler of a forwarded stream has to do with the provider that the controller
lists**, and with no other agent. -/
theorem handleForwardedStream_ends :
    (handleForwardedStream cfg).Sites fun tr op => ForwardedEnds cfg tr op.reach := by
  refine Prog.sites_bind.mpr ⟨Prog.sites_call.mpr ⟨forwardedEnds_peer, fun r => ?_⟩,
    Prog.all_iff.mpr fun _ _ _ => Prog.sites_perform.mpr forwardedEnds_peer⟩
  match r with
  | .ok (.forwardStream (some m)) => exact dispatchForwarded_ends
  | .error err | .ok (.openStream _) | .ok (.forwardStream none) | .ok .streamAccept
  | .ok (.streamReject _ _) | .ok (.streamResume _) | .ok (.migrateToRelay _) | .ok (.other _) =>
    exact Prog.sites_pure

end Handler
