import OutRelay.Handlers

/-!
# Policy on both sides of a stream

A stream is checked twice: may the caller reach the target, and may the
provider be called by this caller. Either side can deny. Where the provider is
connected to the relay that the caller is connected to, `handleConsumerStream`
makes both checks before it opens a stream to the provider.

Where it is not, the stream goes to the provider's relay, and there
`handleForwardedStream` dispatches it without asking the policy: the relay that
forwards has asked. It has asked for the caller's side only. The fork to the
peer comes before the second check, and no relay makes that one.

This module says what each handler checks before it tells a provider of a stream or
splices. It is about what each part of a handler adds to a path, its `Traffic`:
which providers are told of a stream, and what must have happened before bytes
are spliced. Traffic composes (`Traffic.append`), so each procedure has one
lemma. `PolicyRoute` joins the handlers of two relays.
-/

namespace Handler

/-- The provider to which `INCOMING_STREAM` is written. -/
def sendsTo : EdgeEvent → Option AgentConn
  | ⟨.writeFrame (.provider prov) (.incomingStream _), _⟩ => some prov
  | _ => none

/-- The provider to which a stream is opened. -/
def opensTo : EdgeEvent → Option AgentConn
  | ⟨.openAgentStream prov, .ok ()⟩ => some prov
  | _ => none

/-- What is written in `FORWARD_STREAM`. -/
def forwards : EdgeEvent → Option IncomingStream
  | ⟨.writeFrame .peer (.forwardStream m), _⟩ => some m
  | _ => none

/-- What is read in `FORWARD_STREAM`. -/
def receives : EdgeEvent → Option IncomingStream
  | ⟨.parseFrame .peer, .ok (.forwardStream m)⟩ => m
  | _ => none

/-- The peer relay's acceptance is read. -/
def isAccepted : EdgeEvent → Bool
  | ⟨.parseFrame .peer, .ok .streamAccept⟩ => true
  | _ => false

/-- Bytes are spliced, or the relay that forwarded the stream is told that it
may. -/
def joins : EdgeEvent → Bool
  | ⟨.splice _ _, _⟩ => true
  | ⟨.writeFrame .peer .streamAccept, _⟩ => true
  | _ => false

/-- The policy engine answers as `policy` does. -/
def follows (policy : GoString → GoString → GoString → Result) : EdgeEvent → Bool
  | ⟨.evaluate caller target method, r⟩ => r = policy caller target method
  | _ => true

/-! ## Traffic -/

/-- **The traffic of a path**: the providers that are told of the stream are
those that a stream is opened to, and all are in `P`; a stream is forwarded
where `Q` holds; and bytes are spliced after a provider has been told, or where
`A` holds. -/
structure Traffic (P : AgentConn → Prop) (Q A : Prop) (tr : List EdgeEvent) : Prop where
  sent : ∀ prov ∈ tr.filterMap sendsTo, P prov
  opened : tr.filterMap sendsTo = tr.filterMap opensTo
  forwarded : tr.filterMap forwards ≠ [] → Q
  joined : ∀ ev ∈ tr, joins ev = true → tr.filterMap sendsTo ≠ [] ∨ A

/-- An event that adds nothing to the traffic but, at most, the bytes. -/
def Joining (ev : EdgeEvent) : Prop :=
  sendsTo ev = none ∧ opensTo ev = none ∧ forwards ev = none

/-- An event that adds nothing to the traffic. -/
def Idle (ev : EdgeEvent) : Prop := Joining ev ∧ joins ev = false

variable {P : AgentConn → Prop} {Q A B : Prop} {q tr : List EdgeEvent}

theorem Traffic.mono (h : Traffic P Q A tr) (hA : A → B) : Traffic P Q B tr :=
  ⟨h.sent, h.opened, h.forwarded, fun ev hev hj => (h.joined ev hev hj).imp_right hA⟩

/-- **Traffic composes**: what was sent before lets the rest splice. -/
theorem Traffic.append (hq : Traffic P Q A q)
    (htr : Traffic P Q (q.filterMap sendsTo ≠ [] ∨ A) tr) : Traffic P Q A (q ++ tr) where
  sent := by
    rw [List.filterMap_append, List.forall_mem_append]
    exact ⟨hq.sent, htr.sent⟩
  opened := by
    rw [List.filterMap_append, List.filterMap_append, hq.opened, htr.opened]
  forwarded := by
    rw [List.filterMap_append, ne_eq, List.append_eq_nil_iff, not_and_or]
    exact fun h => h.elim hq.forwarded htr.forwarded
  joined := by
    rw [List.forall_mem_append, List.filterMap_append, ne_eq, List.append_eq_nil_iff, not_and_or]
    refine ⟨fun ev hev hj => ?_, fun ev hev hj => ?_⟩
    · exact (hq.joined ev hev hj).imp_left Or.inl
    · rcases htr.joined ev hev hj with h | h | h
      · exact Or.inl (Or.inr h)
      · exact Or.inl (Or.inl h)
      · exact Or.inr h

theorem traffic_of_joining (hA : A) (h : ∀ ev ∈ tr, Joining ev) : Traffic P Q A tr := by
  have hsent : tr.filterMap sendsTo = [] :=
    List.filterMap_eq_nil_iff.mpr fun ev hev => (h ev hev).1
  have hopen : tr.filterMap opensTo = [] :=
    List.filterMap_eq_nil_iff.mpr fun ev hev => (h ev hev).2.1
  have hfwd : tr.filterMap forwards = [] :=
    List.filterMap_eq_nil_iff.mpr fun ev hev => (h ev hev).2.2
  refine ⟨?_, hsent.trans hopen.symm, fun hne => absurd hfwd hne, fun _ _ _ => Or.inr hA⟩
  rw [hsent]
  exact nofun

theorem traffic_of_idle (h : ∀ ev ∈ tr, Idle ev) : Traffic P Q A tr := by
  have hjoin : Traffic P Q True tr := traffic_of_joining trivial fun ev hev => (h ev hev).1
  exact ⟨hjoin.sent, hjoin.opened, hjoin.forwarded,
    fun ev hev hj => nomatch hj.symm.trans (h ev hev).2⟩

/-- The operations that add nothing to the traffic, whatever their answer. -/
def idle : EdgeOp → Bool
  | .openAgentStream _ | .splice _ _ => false
  | .writeFrame (.provider _) (.incomingStream _) => false
  | .writeFrame .peer (.forwardStream _) | .writeFrame .peer .streamAccept => false
  | _ => true

theorem idle_event {ev : EdgeEvent} (ho : idle ev.op = true) : Idle ev := by
  obtain ⟨o, r⟩ := ev
  cases o with
  | openAgentStream | splice => cases ho
  | writeFrame st m =>
    cases st with
    | consumer => exact ⟨⟨rfl, rfl, rfl⟩, rfl⟩
    | provider prov =>
      cases m with
      | incomingStream => cases ho
      | _ => exact ⟨⟨rfl, rfl, rfl⟩, rfl⟩
    | peer =>
      cases m with
      | forwardStream | streamAccept => cases ho
      | _ => exact ⟨⟨rfl, rfl, rfl⟩, rfl⟩
  | _ => exact ⟨⟨rfl, rfl, rfl⟩, rfl⟩

theorem only_idle {o : EdgeOp} (ho : idle o = true) : (perform o).Only Idle :=
  Prog.only_perform.mpr fun _ => idle_event ho

theorem only_joining {o : EdgeOp} (ho : idle o = true) : (perform o).Only Joining :=
  Prog.Only.imp (only_idle ho) fun _ h => h.1

theorem only_splice {a b : StreamRef} : (perform (.splice a b)).Only Joining :=
  Prog.only_perform.mpr fun _ => ⟨rfl, rfl, rfl⟩

/-! ## The procedures -/

theorem writeStreamReject_idle {st : StreamRef} {code : UInt32} {reason : GoString} :
    (writeStreamReject st code reason).Only Idle := by
  refine Prog.Only.bind (only_idle ?_) fun _ => Prog.only_pure
  cases st <;> rfl

theorem rejectConsumer_idle {caller : Option AgentConn} {st : StreamRef} {streamID : UInt64}
    {code : UInt32} {reason : GoString} :
    (rejectConsumer caller st streamID code reason).Only Idle := by
  refine Prog.Within.only (rejectConsumer_within (fun _ _ => idle_event ?_)
    (fun _ _ => idle_event rfl))
  cases st <;> rfl

theorem rejectConsumer_joining {caller : Option AgentConn} {st : StreamRef} {streamID : UInt64}
    {code : UInt32} {reason : GoString} :
    (rejectConsumer caller st streamID code reason).Only Joining :=
  Prog.Only.imp rejectConsumer_idle fun _ h => h.1

theorem resolve_idle {cfg : EdgeConfig} {uri name : GoString} :
    (resolve cfg uri name).Only Idle :=
  Prog.Within.only (resolve_within (fun _ _ _ _ => idle_event rfl) (fun _ _ => idle_event rfl))

theorem openIncoming_traffic {ac : AgentConn} {service method uri : GoString} {streamID : UInt64}
    (hP : P ac) :
    (openIncoming ac service method uri streamID).All (fun tr r =>
      Traffic P Q A tr ∧ (r = .ok () → tr.filterMap sendsTo ≠ [])) := by
  intro r
  cases r with
  | error err =>
    refine ⟨traffic_of_idle ?_, nofun⟩
    exact List.forall_mem_singleton.mpr ⟨⟨rfl, rfl, rfl⟩, rfl⟩
  | ok u =>
    intro resumeRelays r
    cases r with
    | error err =>
      intro u
      refine ⟨⟨List.forall_mem_singleton.mpr hP, rfl, fun h => absurd rfl h, ?_⟩, nofun⟩
      exact fun _ _ _ => Or.inl (List.cons_ne_nil _ _)
    | ok u =>
      refine ⟨⟨List.forall_mem_singleton.mpr hP, rfl, fun h => absurd rfl h, ?_⟩, ?_⟩
      · exact fun _ _ _ => Or.inl (List.cons_ne_nil _ _)
      · exact fun _ => List.cons_ne_nil _ _

/-- A provider is told of the stream, and what follows may splice if it was. -/
theorem traffic_of_openIncoming {ac : AgentConn} {service method uri : GoString}
    {streamID : UInt64} {k : Except GoString Unit → Handler Unit} (hP : P ac)
    (herr : ∀ err, (k (.error err)).Only Idle) (hok : (k (.ok ())).Only Joining) :
    (openIncoming ac service method uri streamID >>= k).All (fun tr _ => Traffic P Q A tr) := by
  have hopen : (openIncoming ac service method uri streamID).All (fun tr r =>
      Traffic P Q A tr ∧ (r = .ok () → tr.filterMap sendsTo ≠ [])) := openIncoming_traffic hP
  refine Prog.all_bind.mpr (Prog.All.imp hopen fun tr r h => ?_)
  cases r with
  | error err => exact Prog.All.imp (herr err) fun tr' _ htr' => h.1.append (traffic_of_idle htr')
  | ok u =>
    exact Prog.All.imp hok fun tr' _ htr' =>
      h.1.append (traffic_of_joining (Or.inl (h.2 rfl)) htr')

theorem grantForward_joining {caller prov : AgentConn} {o : OpenStream} :
    (grantForward caller prov o).Only Joining := by
  refine Prog.Only.bind (only_joining rfl) fun provAC => ?_
  cases provAC with
  | none => exact rejectConsumer_joining
  | some ac =>
    refine Prog.Only.bind (only_joining rfl) fun _ => Prog.Only.bind (only_joining rfl) fun _ => ?_
    refine Prog.Only.bind (Prog.Only.bind ?_ fun _ => only_joining rfl) fun _ => only_joining rfl
    refine Prog.Only.bind (only_joining rfl) fun _ => Prog.Only.bind (only_joining rfl) fun _ => ?_
    refine Prog.Only.bind (only_joining rfl) fun r => ?_
    cases r with
    | error err => exact Prog.only_pure
    | ok u =>
      refine Prog.Only.bind (only_joining rfl) fun r => ?_
      cases r with
      | error err => exact Prog.only_pure
      | ok u => exact only_joining rfl

theorem spliceStreams_joining {caller prov : AgentConn} {o : OpenStream} :
    (spliceStreams caller prov o).Only Joining := by
  refine Prog.Only.bind (only_joining rfl) fun provAC => ?_
  refine Prog.Only.bind (only_joining rfl) fun _ => Prog.Only.bind (only_joining rfl) fun _ => ?_
  refine Prog.Only.bind ?_ fun _ => ?_
  · cases provAC with
    | none => exact Prog.only_pure
    | some ac => exact Prog.Only.bind (only_joining rfl) fun _ => Prog.only_pure
  · exact Prog.Only.bind only_splice fun _ => Prog.only_pure

theorem awaitAccept_joining {cfg : EdgeConfig} {caller prov : AgentConn} {o : OpenStream}
    {relayMode : RelayMode} : (awaitAccept cfg caller prov o relayMode).Only Joining := by
  refine Prog.Only.bind (only_joining rfl) fun r => ?_
  match r with
  | .error err => exact Prog.only_pure
  | .ok .streamAccept =>
    dsimp only
    split_ifs
    · exact grantForward_joining
    · exact spliceStreams_joining
  | .ok (.streamReject code reason) => exact rejectConsumer_joining
  | .ok (.openStream _) | .ok (.forwardStream _) | .ok (.streamResume _) | .ok (.migrateToRelay _)
  | .ok (.other _) => exact Prog.only_pure

theorem dispatchStream_traffic {cfg : EdgeConfig} {caller prov : AgentConn} {o : OpenStream}
    {p2pMode : P2PMode} {relayMode : RelayMode} (hP : P prov) :
    (dispatchStream cfg caller prov o p2pMode relayMode).All (fun tr _ => Traffic P Q A tr) := by
  refine traffic_of_openIncoming hP (fun _ => rejectConsumer_idle) ?_
  refine Prog.Only.bind (Prog.Only.bind (only_joining rfl) fun recorded => ?_)
    fun _ => only_joining rfl
  cases recorded with
  | false =>
    rw [if_neg Bool.false_ne_true]
    exact rejectConsumer_joining
  | true =>
    refine Prog.Only.bind ?_ fun _ => only_joining rfl
    split_ifs
    · exact Prog.Only.bind (Prog.Only.bind (only_joining rfl) fun _ => awaitAccept_joining)
        fun _ => only_joining rfl
    · exact awaitAccept_joining

/-- A stream is forwarded where it may be, and a success is an acceptance that
was read. -/
theorem forwardStream_traffic {target method uri : GoString} (hQ : Q) :
    (forwardStream target method uri).All (fun tr r =>
      Traffic P Q A tr ∧ (r = .ok () → ∃ ev ∈ tr, isAccepted ev = true)) := by
  have hfailed : ∀ {r : Except GoString Unit} {tr : List EdgeEvent}, (∀ ev ∈ tr, Idle ev) →
      Traffic P Q A (⟨.openPeerStream, .ok ()⟩ ::
        ⟨.writeFrame .peer (.forwardStream ⟨target, method, uri, 0, []⟩), r⟩ :: tr) :=
    fun {r} {tr} htr => by
      have hhead : Traffic P Q A [⟨.openPeerStream, .ok ()⟩,
          ⟨.writeFrame .peer (.forwardStream ⟨target, method, uri, 0, []⟩), r⟩] := by
        refine ⟨nofun, rfl, fun _ => hQ, ?_⟩
        rw [List.forall_mem_cons, List.forall_mem_singleton]
        exact ⟨nofun, nofun⟩
      exact hhead.append (traffic_of_idle htr)
  intro r
  cases r with
  | error err => exact ⟨traffic_of_idle (List.forall_mem_singleton.mpr (idle_event rfl)), nofun⟩
  | ok u =>
    intro r
    cases r with
    | error err =>
      intro u
      exact ⟨hfailed (List.forall_mem_singleton.mpr (idle_event rfl)), nofun⟩
    | ok u =>
      intro r
      have hread : Idle ⟨.parseFrame .peer, r⟩ := idle_event rfl
      match r with
      | .ok .streamAccept =>
        refine ⟨hfailed (List.forall_mem_singleton.mpr hread), fun _ =>
          ⟨⟨.parseFrame .peer, .ok .streamAccept⟩, ?_, rfl⟩⟩
        exact List.mem_cons_of_mem _ (List.mem_cons_of_mem _ List.mem_cons_self)
      | .error err | .ok (.streamReject _ _) | .ok (.openStream _) | .ok (.forwardStream _)
      | .ok (.streamResume _) | .ok (.migrateToRelay _) | .ok (.other _) =>
        intro u
        refine ⟨hfailed ?_, nofun⟩
        exact List.forall_mem_cons.mpr ⟨hread, List.forall_mem_singleton.mpr (idle_event rfl)⟩

theorem answerPeer_joining {prov : AgentConn} : (answerPeer prov).Only Joining := by
  refine Prog.Only.bind (only_joining rfl) fun r => ?_
  match r with
  | .ok .streamAccept =>
    refine Prog.Only.bind (Prog.only_perform.mpr fun _ => ⟨rfl, rfl, rfl⟩) fun r => ?_
    cases r with
    | error err => exact Prog.only_pure
    | ok u => exact Prog.Only.bind only_splice fun _ => Prog.only_pure
  | .error err | .ok (.streamReject _ _) | .ok (.openStream _) | .ok (.forwardStream _)
  | .ok (.streamResume _) | .ok (.migrateToRelay _) | .ok (.other _) =>
    exact Prog.Only.imp writeStreamReject_idle fun _ h => h.1

theorem dispatchForwarded_traffic {cfg : EdgeConfig} {m : IncomingStream} :
    (dispatchForwarded cfg m).All (fun tr _ => Traffic (fun _ => True) True False tr) := by
  refine Prog.all_bind.mpr (Prog.All.imp resolve_idle fun q r hq => ?_)
  cases r with
  | error err =>
    exact Prog.All.imp writeStreamReject_idle fun tr _ htr =>
      (traffic_of_idle hq).append (traffic_of_idle htr)
  | ok prov =>
    refine Prog.All.imp (traffic_of_openIncoming (P := fun _ => True) (Q := True) (A := False)
      trivial (fun _ => writeStreamReject_idle)
      (Prog.Only.bind answerPeer_joining fun _ => only_joining rfl)) fun tr _ htr => ?_
    exact (traffic_of_idle hq).append (htr.mono Or.inr)

/-- **The peer relay**: a provider is told of a stream that was forwarded, and
nothing is accepted or spliced before. -/
theorem handleForwardedStream_traffic {cfg : EdgeConfig} :
    (handleForwardedStream cfg).All (fun tr _ =>
      Traffic (fun _ => tr.filterMap receives ≠ []) True False tr) := by
  intro r
  have hfirst : Idle ⟨.parseFrame .peer, r⟩ := idle_event rfl
  have hclose : (perform (.closeStream .peer)).Only Idle := only_idle rfl
  match r with
  | .ok (.forwardStream (some m)) =>
    refine Prog.all_bind.mpr (Prog.All.imp dispatchForwarded_traffic fun tr _ htr =>
      Prog.All.imp hclose fun tr' _ htr' => ?_)
    have h := (traffic_of_idle (List.forall_mem_singleton.mpr hfirst)).append
      ((htr.append (traffic_of_idle htr')).mono Or.inr)
    exact ⟨fun _ _ => List.cons_ne_nil _ _, h.opened, h.forwarded, h.joined⟩
  | .error err | .ok (.streamReject _ _) | .ok (.openStream _) | .ok (.forwardStream none)
  | .ok .streamAccept | .ok (.streamResume _) | .ok (.migrateToRelay _) | .ok (.other _) =>
    intro u
    exact traffic_of_idle (List.forall_mem_cons.mpr
      ⟨hfirst, List.forall_mem_singleton.mpr (idle_event rfl)⟩)

/-! ## What the policy lets through -/

variable {policy : GoString → GoString → GoString → Result} {α β : Type} {p : Handler α}
  {k : α → Handler β}

variable (policy P Q) in
/-- On every path of `p` on which the policy engine answers as `policy` does,
the providers told of a stream are in `P`, and it is forwarded only if `Q`. -/
def Gated (p : Handler α) : Prop :=
  p.All (fun tr _ => (∀ ev ∈ tr, follows policy ev = true) →
    Traffic P Q (∃ ev ∈ tr, isAccepted ev = true) tr)

/-- What was accepted on the second part of a path was accepted on the path. -/
theorem Traffic.append_accepted (hq : ∀ ev ∈ q, Idle ev)
    (htr : Traffic P Q (∃ ev ∈ tr, isAccepted ev = true) tr) :
    Traffic P Q (∃ ev ∈ q ++ tr, isAccepted ev = true) (q ++ tr) := by
  refine (traffic_of_idle hq).append (htr.mono fun h => Or.inr ?_)
  obtain ⟨ev, hev, ha⟩ := h
  exact ⟨ev, List.mem_append_right _ hev, ha⟩

/-- Idle operations come before. -/
theorem Gated.bind (hp : p.Only Idle) (hk : ∀ a, Gated P Q policy (k a)) :
    Gated P Q policy (p >>= k) := by
  refine Prog.all_bind.mpr (Prog.All.imp hp fun q a hq => Prog.All.imp (hk a) fun tr _ htr hf => ?_)
  exact Traffic.append_accepted hq (htr (List.forall_mem_append.mp hf).2)

/-- **The answer of the policy engine is the policy's.** -/
theorem Gated.evaluate {caller target method : GoString} {k : Result → Handler β}
    (hk : Gated P Q policy (k (policy caller target method))) :
    Gated P Q policy (perform (.evaluate caller target method) >>= k) := by
  intro r
  by_cases hr : r = policy caller target method
  · subst hr
    refine Prog.All.imp hk fun tr _ htr hf => ?_
    exact Traffic.append_accepted (q := [_])
      (List.forall_mem_singleton.mpr (idle_event rfl))
      (htr (List.forall_mem_cons.mp hf).2)
  · refine Prog.all_iff.mpr fun tr _ _ hf => absurd ?_ hr
    exact of_decide_eq_true (List.forall_mem_cons.mp hf).1

theorem gated_of_traffic (hp : p.All (fun tr _ => Traffic P Q False tr)) : Gated P Q policy p :=
  Prog.All.imp hp fun _ _ h _ => h.mono nofun

theorem gated_of_idle (hp : p.Only Idle) : Gated P Q policy p :=
  gated_of_traffic (Prog.All.imp hp fun _ _ h => traffic_of_idle h)

theorem forwardToPeer_gated {caller : AgentConn} {o : OpenStream} {remote : Remote} (hQ : Q) :
    Gated P Q policy (forwardToPeer caller o remote) := by
  refine Gated.bind (only_idle rfl) fun r => ?_
  cases r with
  | error err => exact gated_of_idle rejectConsumer_idle
  | ok u =>
    have hforward : (forwardStream o.targetService o.method caller.uri).All (fun tr r =>
        Traffic P Q False tr ∧ (r = .ok () → ∃ ev ∈ tr, isAccepted ev = true)) :=
      forwardStream_traffic hQ
    refine Prog.all_bind.mpr (Prog.All.imp hforward fun tr r h => ?_)
    cases r with
    | error err =>
      refine Prog.All.imp (Prog.Only.bind (only_idle rfl) fun _ => rejectConsumer_idle)
        fun tr' _ htr' _ => ?_
      exact (h.1.append (traffic_of_idle htr')).mono nofun
    | ok u =>
      obtain ⟨ev, hev, ha⟩ := h.2 rfl
      refine Prog.All.imp (Prog.Only.bind (Prog.Only.bind only_splice fun _ => Prog.only_pure)
        fun _ => only_joining rfl) fun tr' _ htr' _ => ?_
      have hacc : ∃ ev ∈ tr ++ tr', isAccepted ev = true := ⟨ev, List.mem_append_left _ hev, ha⟩
      exact (h.1.mono nofun).append (traffic_of_joining (Or.inr hacc) htr')

/-- What is not denied is allowed. -/
theorem allow_of_not_deny {d : Decision} (h : ¬ d = .deny) : d = .allow := by
  cases d with
  | deny => exact absurd rfl h
  | allow => rfl

theorem routeStream_gated {cfg : EdgeConfig} {caller : AgentConn} {o : OpenStream}
    {p2pMode : P2PMode} {relayMode : RelayMode} (hpolicy : cfg.policy = true) (hQ : Q) :
    Gated (fun prov => Q ∧ (policy prov.uri caller.uri o.method).decision = .allow) Q policy
      (routeStream cfg caller o p2pMode relayMode) := by
  refine Gated.bind resolve_idle fun r => ?_
  match r with
  | .error (.providerRemote remote) =>
    dsimp only
    split_ifs
    · exact gated_of_idle rejectConsumer_idle
    · exact forwardToPeer_gated hQ
  | .error .noTenant | .error (.rpcFailed _) | .error .serviceNotFound =>
    exact gated_of_idle rejectConsumer_idle
  | .ok prov =>
    dsimp only
    rw [if_pos hpolicy]
    refine Gated.evaluate (Gated.bind (only_idle rfl) fun _ => ?_)
    split_ifs with hdeny
    · exact gated_of_idle rejectConsumer_idle
    · exact gated_of_traffic (dispatchStream_traffic ⟨hQ, allow_of_not_deny hdeny⟩)

/-- **The relay of the caller** makes both checks for a provider of its own,
and the check of the caller before it forwards. -/
theorem handleOpenStream_gated {cfg : EdgeConfig} {caller : AgentConn} {o : OpenStream}
    (hpolicy : cfg.policy = true) :
    Gated (fun prov => (policy caller.uri o.targetService o.method).decision = .allow
        ∧ (policy prov.uri caller.uri o.method).decision = .allow)
      ((policy caller.uri o.targetService o.method).decision = .allow) policy
      (handleOpenStream cfg caller o) := by
  unfold handleOpenStream
  rw [if_pos hpolicy]
  refine Gated.evaluate (Gated.bind (only_idle rfl) fun _ => ?_)
  split_ifs with hdeny
  · exact gated_of_idle rejectConsumer_idle
  · exact routeStream_gated hpolicy (allow_of_not_deny hdeny)

theorem handleConsumerStream_gated {cfg : EdgeConfig} {caller : AgentConn} {o : OpenStream}
    (hpolicy : cfg.policy = true) :
    (handleConsumerStream cfg caller).All (fun tr _ =>
      tr.head? = some ⟨.parseFrame .consumer, .ok (.openStream (some o))⟩ →
      (∀ ev ∈ tr, follows policy ev = true) →
        Traffic (fun prov => (policy caller.uri o.targetService o.method).decision = .allow
            ∧ (policy prov.uri caller.uri o.method).decision = .allow)
          ((policy caller.uri o.targetService o.method).decision = .allow)
          (∃ ev ∈ tr, isAccepted ev = true) tr) := by
  have hhandle : Gated _ _ policy (handleOpenStream cfg caller o) := handleOpenStream_gated hpolicy
  have hclose : (perform (.closeStream .consumer)).Only Idle := only_idle rfl
  refine handleConsumerStream_all (Prog.all_bind.mpr (Prog.All.imp hhandle fun tr _ htr =>
    Prog.All.imp hclose fun tr' _ htr' hf => ?_))
  have htraffic := htr (List.forall_mem_append.mp (List.forall_mem_cons.mp hf).2).1
  refine Traffic.append_accepted (q := [_]) (List.forall_mem_singleton.mpr (idle_event rfl)) ?_
  refine (htraffic.mono fun h => ?_).append (traffic_of_idle htr')
  obtain ⟨ev, hev, ha⟩ := h
  exact ⟨ev, List.mem_append_left _ hev, ha⟩

end Handler
