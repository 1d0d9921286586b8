import OutRelay.StreamEnds

/-!
# The policy on the route of a stream

A `Route` is the way of a stream through one relay or two: a path of each handler,
joined by what the relays write to each other. The relay of the caller checks both
sides for a provider of its own, and the caller's side before it forwards
(`PolicyPath`). The relay that it forwards to checks nothing.

So it depends on what that relay finds. `enforced_iff` says on which routes the policy
is enforced: those on which the provider that the peer's own `Resolve` and registry
give, where a stream to it opens, may be called by the caller under the rules of one of
the two relays.
-/

/-- A relay with a policy engine, and what the engine answers. -/
structure PolicyRelay extends EdgeConfig where
  evaluate : GoString → GoString → GoString → Result
  enabled : policy = true

/-- **The route of a stream**: what the relay of the caller does with it, and
what a peer relay does with the stream that is forwarded to it, if one is. The
peer receives what was sent to it, and its acceptance is read only if it was
written. -/
structure Route (relay peer : PolicyRelay) (caller : AgentConn) (o : OpenStream) where
  here : List EdgeEvent
  there : List EdgeEvent
  path_here : Prog.Path (Handler.handleConsumerStream relay.toEdgeConfig caller) here ()
  path_there : there = [] ∨ Prog.Path (Handler.handleForwardedStream peer.toEdgeConfig) there ()
  opened : here.head? = some ⟨.parseFrame .consumer, .ok (.openStream (some o))⟩
  follows_here : ∀ ev ∈ here, Handler.follows relay.evaluate ev = true
  follows_there : ∀ ev ∈ there, Handler.follows peer.evaluate ev = true
  received : ∀ m ∈ there.filterMap Handler.receives, m ∈ here.filterMap Handler.forwards
  accepted : (∃ ev ∈ here, Handler.isAccepted ev = true) →
    ∃ r, ⟨.writeFrame .peer .streamAccept, r⟩ ∈ there

namespace Route

variable {relay peer : PolicyRelay} {caller : AgentConn} {o : OpenStream}

/-- One of the two relays allows the call. -/
def Allowed (relay peer : PolicyRelay) (source target method : GoString) : Prop :=
  (relay.evaluate source target method).decision = .allow
    ∨ (peer.evaluate source target method).decision = .allow

/-- Both sides of the call from `caller` to `prov` are allowed. -/
def BothAllowed (relay peer : PolicyRelay) (caller : AgentConn) (o : OpenStream)
    (prov : AgentConn) : Prop :=
  Allowed relay peer caller.uri o.targetService o.method
    ∧ Allowed relay peer prov.uri caller.uri o.method

/-- The providers that are told of the stream. -/
def told (route : Route relay peer caller o) : List AgentConn :=
  (route.here ++ route.there).filterMap Handler.sendsTo

/-- **The policy is enforced on the route**: only a provider for which both
sides are allowed is told of the stream, and bytes are spliced only with such a
provider. -/
def Enforced (route : Route relay peer caller o) : Prop :=
  (∀ prov ∈ route.told, BothAllowed relay peer caller o prov)
    ∧ ((∃ ev ∈ route.here ++ route.there, Handler.isSplice ev = true) →
        ∃ prov ∈ route.told, BothAllowed relay peer caller o prov)

theorem traffic_here (route : Route relay peer caller o) :
    Handler.Traffic
      (fun prov => (relay.evaluate caller.uri o.targetService o.method).decision = .allow
        ∧ (relay.evaluate prov.uri caller.uri o.method).decision = .allow)
      ((relay.evaluate caller.uri o.targetService o.method).decision = .allow)
      (∃ ev ∈ route.here, Handler.isAccepted ev = true) route.here :=
  Prog.all_iff.mp (Handler.handleConsumerStream_gated relay.enabled) route.here () route.path_here
    route.opened route.follows_here

theorem traffic_there (route : Route relay peer caller o) :
    Handler.Traffic (fun _ => route.there.filterMap Handler.receives ≠ []) True False
      route.there := by
  rcases route.path_there with hnone | hpath
  · rw [hnone]
    exact Handler.traffic_of_idle nofun
  · exact Prog.all_iff.mp Handler.handleForwardedStream_traffic route.there () hpath

theorem mem_told_iff (route : Route relay peer caller o) (prov : AgentConn) :
    prov ∈ route.told ↔ prov ∈ route.here.filterMap Handler.sendsTo
      ∨ prov ∈ route.there.filterMap Handler.opensTo := by
  rw [told, List.filterMap_append, List.mem_append, route.traffic_there.opened]

/-- A stream that the peer relay dispatches was allowed on the caller's side:
it was forwarded. -/
theorem caller_allowed_of_there (route : Route relay peer caller o) {prov : AgentConn}
    (h : prov ∈ route.there.filterMap Handler.opensTo) :
    Allowed relay peer caller.uri o.targetService o.method := by
  rw [← route.traffic_there.opened] at h
  obtain ⟨m, hm⟩ := List.exists_mem_of_ne_nil _ (route.traffic_there.sent prov h)
  exact Or.inl (route.traffic_here.forwarded (List.ne_nil_of_mem (route.received m hm)))

/-- Bytes are spliced only after a provider has been told of the stream, here
or there. -/
theorem told_ne_nil_of_splice (route : Route relay peer caller o) {ev : EdgeEvent}
    (hev : ev ∈ route.here ++ route.there) (hs : Handler.isSplice ev = true) :
    route.told ≠ [] := by
  have hjoin : Handler.joins ev = true := by
    unfold Handler.isSplice at hs
    split at hs
    · rfl
    · cases hs
  have hthere : ∀ ev ∈ route.there, Handler.joins ev = true →
      route.there.filterMap Handler.sendsTo ≠ [] := fun ev hev hj =>
    (route.traffic_there.joined ev hev hj).resolve_right id
  unfold told
  rw [List.filterMap_append, ne_eq, List.append_eq_nil_iff, not_and_or]
  rcases List.mem_append.mp hev with hev | hev
  · refine (route.traffic_here.joined ev hev hjoin).imp_right fun hacc => ?_
    obtain ⟨r, hr⟩ := route.accepted hacc
    exact hthere _ hr rfl
  · exact Or.inr (hthere ev hev hjoin)

/-- **What the peer relay finds for the stream it is asked for**: the controller lists the
provider first, as one of that relay, and the registry has `prov` for it. -/
def FoundThere (route : Route relay peer caller o) (prov : AgentConn) : Prop :=
  ∃ m ∈ route.there.filterMap Handler.receives,
    Handler.Here peer.toEdgeConfig m.sourceAgentURI m.targetService route.there prov

theorem mem_opensTo_iff {tr : List EdgeEvent} {prov : AgentConn} :
    prov ∈ tr.filterMap Handler.opensTo ↔ ⟨.openAgentStream prov, .ok ()⟩ ∈ tr := by
  rw [List.mem_filterMap]
  constructor
  · rintro ⟨ev, hev, hopens⟩
    unfold Handler.opensTo at hopens
    split at hopens
    · cases hopens
      exact hev
    · cases hopens
  · exact fun hev => ⟨_, hev, rfl⟩

/-- The peer relay opens a stream to the provider that it has found. -/
theorem found_of_opened (route : Route relay peer caller o) {prov : AgentConn}
    (hopen : ⟨.openAgentStream prov, .ok ()⟩ ∈ route.there) : route.FoundThere prov := by
  rcases route.path_there with hnone | hpath
  · rw [hnone] at hopen
    cases hopen
  · obtain ⟨pre, post, hthere⟩ := List.append_of_mem hopen
    have hends : Handler.ForwardedEnds peer.toEdgeConfig pre (.stream [.provider prov]) :=
      Handler.handleForwardedStream_ends.of_path hpath hthere
    obtain ⟨m, hhead, hhere⟩ := hends prov (List.mem_singleton_self _)
    have hsub : pre ⊆ route.there := by
      rw [hthere]
      exact List.subset_append_left _ _
    refine ⟨m, List.mem_filterMap.mpr ⟨_, hsub (List.mem_of_mem_head? hhead), rfl⟩, ?_⟩
    exact hhere.mono hsub

/-- **Policy on both sides**: a route is enforced if and only if the provider that the peer
relay finds, where a stream to it opens, may be called by the caller. Where the provider
is connected to the caller's own relay, nothing more is needed. -/
theorem enforced_iff (route : Route relay peer caller o) :
    route.Enforced ↔ ∀ prov, route.FoundThere prov →
      ⟨.openAgentStream prov, .ok ()⟩ ∈ route.there →
      Allowed relay peer prov.uri caller.uri o.method := by
  constructor
  · intro h prov _ hopen
    exact (h.1 prov ((route.mem_told_iff prov).mpr (Or.inr (mem_opensTo_iff.mpr hopen)))).2
  · intro h
    have htold : ∀ prov ∈ route.told, BothAllowed relay peer caller o prov := by
      intro prov hprov
      rcases (route.mem_told_iff prov).mp hprov with hhere | hthere
      · exact (route.traffic_here.sent prov hhere).imp Or.inl Or.inl
      · have hopen := mem_opensTo_iff.mp hthere
        exact ⟨route.caller_allowed_of_there hthere, h prov (route.found_of_opened hopen) hopen⟩
    refine ⟨htold, fun hsplice => ?_⟩
    obtain ⟨ev, hev, hs⟩ := hsplice
    obtain ⟨prov, hprov⟩ := List.exists_mem_of_ne_nil _ (route.told_ne_nil_of_splice hev hs)
    exact ⟨prov, hprov, htold prov hprov⟩

/-! ## A forwarded stream -/

/-- Rules under which `agentC` may reach the service, and `callee` decides on
calls to `agentP` from `agentC`. -/
def paymentRules (callee : Decision) : List Rule :=
  [⟨go "c1-pays", agentC.val, openPayments.targetService, [], .allow, 0, .allowed, .splice⟩,
    ⟨go "p1-accepts", agentP.val, agentC.val, [], callee, 0, .allowed, .splice⟩]

/-- A relay that holds a set of rules. -/
def holding (cfg : EdgeConfig) (rules : List Rule) (h : cfg.policy = true) : PolicyRelay where
  toEdgeConfig := cfg
  evaluate := fun source target method =>
    Snapshot.decide (some (buildSnapshot rules)) ⟨source, target, method, 0⟩
  enabled := h

/-- The frames that the peer relay reads. -/
def forwardedFrames : StreamRef → Frame
  | .peer =>
    .forwardStream (some ⟨openPayments.targetService, openPayments.method, agentC.val, 0, []⟩)
  | _ => .streamAccept

/-- A relay that holds these rules. -/
def paymentRelay (cfg : EdgeConfig) (callee : Decision) (h : cfg.policy = true) : PolicyRelay :=
  holding cfg (paymentRules callee) h

/-- A stream of `agentC`, where the controller places `agentP` on the second
relay and everything succeeds. -/
def forwardedRoute (callee : Decision) :
    Route (paymentRelay edgeR1 callee rfl) (paymentRelay edgeR2 callee rfl) connC openPayments where
  here := (Prog.run (Handler.succeeding acceptedBy (paymentRelay edgeR1 callee rfl).evaluate
    [⟨agentP.val, edgeR2.relayID, go "r2:7443"⟩] connP)
    (Handler.handleConsumerStream edgeR1 connC)).fst
  there := (Prog.run (Handler.succeeding forwardedFrames (paymentRelay edgeR2 callee rfl).evaluate
    [⟨agentP.val, edgeR2.relayID, go "r2:7443"⟩] connP)
    (Handler.handleForwardedStream edgeR2)).fst
  path_here := Prog.path_run _ _
  path_there := Or.inr (Prog.path_run _ _)
  opened := rfl
  follows_here := by cases callee <;> decide
  follows_there := by cases callee <;> decide
  received := by cases callee <;> decide
  accepted := fun _ => ⟨.ok (), List.mem_of_getElem? (i := 7) rfl⟩

/-- Both relays hold the same rules, and they deny `agentP` calls from
`agentC`. The stream is forwarded, `agentP` is told of it, and the bytes are
spliced. -/
theorem denied_provider_told :
    connP ∈ (forwardedRoute .deny).told
      ∧ ¬ Allowed (paymentRelay edgeR1 .deny rfl) (paymentRelay edgeR2 .deny rfl) connP.uri
          connC.uri openPayments.method
      ∧ (∃ ev ∈ (forwardedRoute .deny).here ++ (forwardedRoute .deny).there,
          Handler.isSplice ev = true)
      ∧ ¬ (forwardedRoute .deny).Enforced := by
  have htold : connP ∈ (forwardedRoute .deny).told := by decide
  have hdeny : ¬ Allowed (paymentRelay edgeR1 .deny rfl) (paymentRelay edgeR2 .deny rfl) connP.uri
      connC.uri openPayments.method := by
    unfold Allowed
    decide
  exact ⟨htold, hdeny, by decide, fun h => hdeny (h.1 connP htold).2⟩

/-- The same stream under rules that allow the call. -/
theorem allowed_provider_told :
    connP ∈ (forwardedRoute .allow).told ∧ (forwardedRoute .allow).Enforced := by
  refine ⟨by decide, (enforced_iff _).mpr fun prov _ hopen => ?_⟩
  have hall : ∀ prov ∈ (forwardedRoute .allow).there.filterMap Handler.opensTo,
      Allowed (paymentRelay edgeR1 .allow rfl) (paymentRelay edgeR2 .allow rfl) prov.uri connC.uri
        openPayments.method := by
    unfold Allowed
    decide
  exact hall prov (mem_opensTo_iff.mpr hopen)

end Route
