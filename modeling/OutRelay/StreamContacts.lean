import OutRelay.Loop
import OutRelay.PolicyPath

/-!
# How far a stream gets

Of the many things a stream handler does, few bring the stream further: a
provider is told of it, a peer relay is dialled and asked, the consumer is
joined with the peer, or the peer is told that the provider has accepted. These
are the *contacts* of a path. This module says in which order a path makes them
and with what contents, so that statements about many handlers need not look
into the procedures again.

* A handler of an agent's stream tells one provider, or it asks one peer relay;
  it never does both, and never either twice (`handleConsumerStream_contacts`).
  What it says names its own caller and repeats the `OPEN_STREAM` that it has
  read.
* A handler of a forwarded stream tells one provider, what it was told itself,
  and asks no other relay (`handleForwardedStream_contacts`).

Each contact is placed by the contacts before it. So a part of a procedure that
makes none can be put in front (`ContactSites.bind_inert`) or behind
(`ContactSites.bind_done`).
-/

namespace Handler

/-- The operations that bring a stream further. -/
def isContact : EdgeOp → Bool
  | .writeFrame (.provider _) (.incomingStream _) => true
  | .openPeerStream => true
  | .writeFrame .peer (.forwardStream _) => true
  | .writeFrame .peer .streamAccept => true
  | .splice .consumer .peer => true
  | _ => false

/-- **The contacts of a path.** -/
def contacts (tr : List EdgeEvent) : List EdgeOp :=
  (tr.map Interface.Event.op).filter isContact

variable {cfg : EdgeConfig} {caller prov : AgentConn} {o : OpenStream} {m : IncomingStream}
  {tr tr' : List EdgeEvent} {α β : Type}

theorem contacts_append : contacts (tr ++ tr') = contacts tr ++ contacts tr' := by
  unfold contacts
  rw [List.map_append, List.filter_append]

theorem contacts_append_of_nil (h : contacts tr = []) : contacts (tr ++ tr') = contacts tr' := by
  rw [contacts_append, h, List.nil_append]

theorem mem_contacts {ev : EdgeEvent} (hev : ev ∈ tr) (hc : isContact ev.op = true) :
    ev.op ∈ contacts tr :=
  List.mem_filter.mpr ⟨List.mem_map_of_mem hev, hc⟩

/-- A procedure without contacts. -/
abbrev Inert (p : Handler α) : Prop := p.Within fun o => isContact o = false

theorem Inert.contacts {p : Handler α} (hp : Inert p) : p.All fun tr _ => contacts tr = [] :=
  Prog.Within.filter_eq_nil hp

/-- **The contacts of `p` are in `C`**, each with the events before it. -/
def ContactSites (C : List EdgeEvent → EdgeOp → Prop) (p : Handler α) : Prop :=
  p.Sites fun tr o => isContact o = true → C tr o

/-- What is said of a contact does not change when events without contacts come
before. -/
def Framed (C : List EdgeEvent → EdgeOp → Prop) : Prop :=
  ∀ tr tr' o, contacts tr = [] → C tr' o → C (tr ++ tr') o

section Rules

variable {C : List EdgeEvent → EdgeOp → Prop} {p : Handler α} {f : α → Handler β}

theorem contactSites_of_inert (hp : Inert p) : ContactSites C p :=
  Prog.Sites.imp hp fun _ _ hq hc => by cases hq.symm.trans hc

theorem ContactSites.bind_inert (hC : Framed C) (hp : Inert p)
    (hf : ∀ a, ContactSites C (f a)) : ContactSites C (p >>= f) := by
  refine Prog.sites_bind.mpr ⟨contactSites_of_inert hp, Prog.All.imp hp.contacts fun tr a htr => ?_⟩
  exact Prog.Sites.imp (hf a) fun tr' o h hc => hC tr tr' o htr (h hc)

theorem ContactSites.bind_done (hp : ContactSites C p) (hf : ∀ a, Inert (f a)) :
    ContactSites C (p >>= f) :=
  Prog.sites_bind.mpr ⟨hp, Prog.all_iff.mpr fun _ a _ =>
    Prog.Sites.imp (hf a) fun _ _ hq hc => by cases hq.symm.trans hc⟩

end Rules

/-! ## Procedures without contacts -/

theorem inert_perform {o : EdgeOp} (ho : isContact o = false) : Inert (perform o) :=
  Prog.within_perform ho

theorem rejectConsumer_inert {c : Option AgentConn} {sid : UInt64} {code : UInt32}
    {reason : GoString} : Inert (rejectConsumer c .consumer sid code reason) :=
  rejectConsumer_within (fun _ => rfl) fun _ => rfl

theorem writeStreamReject_inert {code : UInt32} {reason : GoString} :
    Inert (writeStreamReject .peer code reason) :=
  Prog.Within.bind (Prog.within_perform rfl) fun _ => Prog.within_pure

theorem resolve_inert {uri name : GoString} : Inert (resolve cfg uri name) :=
  resolve_within (fun _ _ _ => rfl) fun _ => rfl

/-! ## Once the provider has been told -/

/-- What a handler performs once it has opened a stream to the provider. -/
def isServing : EdgeOp → Bool
  | .parseFrame (.provider _) | .closeStream (.provider _) => true
  | .writeFrame .consumer (.streamReject _ _ _) | .writeCtrl _ _ => true
  | .recordPair _ _ | .forgetPair _ => true
  | .enforceRequiredPromotion _ | .cancelEnforcement _ => true
  | .lookupAgent _ | .successors => true
  | .allocate _ | .forget _ | .forwardEndpoint => true
  | .drain _ _ | .splice .consumer (.provider _) => true
  | _ => false

/-- What a handler performs to forward a stream, besides rejecting it. -/
def isForwarding : EdgeOp → Bool
  | .poolGet _ _ | .poolDrop _ => true
  | .openPeerStream | .parseFrame .peer | .closeStream .peer => true
  | .writeFrame .peer (.forwardStream _) => true
  | .splice .consumer .peer => true
  | _ => false

/-- The rest of `dispatchStream`, after `openIncoming`. -/
def serveOpened (cfg : EdgeConfig) (caller prov : AgentConn) (o : OpenStream) (p2pMode : P2PMode)
    (relayMode : RelayMode) : Except GoString Unit → Handler Unit
  | .error _ => rejectConsumer caller .consumer o.streamID 502 (go "provider stream open failed")
  | .ok () =>
    defer (perform (.closeStream (.provider prov))) do
    if ← perform (.recordPair o.streamID ⟨caller.uri, prov.uri⟩) then
      defer (perform (.forgetPair o.streamID)) do
      if p2pMode = .required ∧ cfg.migrated = true then
        defer (perform (.cancelEnforcement o.streamID)) do
        perform (.enforceRequiredPromotion o.streamID)
        awaitAccept cfg caller prov o relayMode
      else awaitAccept cfg caller prov o relayMode
    else rejectConsumer caller .consumer o.streamID 409 (go "stream id collision")

theorem dispatchStream_eq {p2pMode : P2PMode} {relayMode : RelayMode} :
    dispatchStream cfg caller prov o p2pMode relayMode
      = openIncoming prov o.targetService o.method caller.uri o.streamID
        >>= serveOpened cfg caller prov o p2pMode relayMode := by
  refine congrArg (Prog.bind _) (funext fun r => ?_)
  cases r with
  | error err => rfl
  | ok u => rfl

section Serving

variable {A : EdgeOp → Prop} (hA : ∀ op, isServing op = true → A op)

include hA

theorem reject_within {c : Option AgentConn} {sid : UInt64} {code : UInt32} {reason : GoString} :
    (rejectConsumer c .consumer sid code reason).Within A :=
  rejectConsumer_within (fun _ => hA _ rfl) fun _ => hA _ rfl

theorem grantForward_within : (grantForward caller prov o).Within A := by
  refine Prog.Within.bind (Prog.within_perform (hA _ rfl)) fun provAC => ?_
  cases provAC with
  | none => exact reject_within hA
  | some ac =>
    refine Prog.Within.bind (Prog.within_perform (hA _ rfl)) fun _ =>
      Prog.Within.bind (Prog.within_perform (hA _ rfl)) fun _ => ?_
    refine Prog.Within.bind (Prog.Within.bind ?_ fun _ => Prog.within_perform (hA _ rfl))
      fun _ => Prog.within_perform (hA _ rfl)
    refine Prog.Within.bind (Prog.within_perform (hA _ rfl)) fun _ =>
      Prog.Within.bind (Prog.within_perform (hA _ rfl)) fun _ => ?_
    refine Prog.Within.bind (Prog.within_perform (hA _ rfl)) fun r => ?_
    cases r with
    | error err => exact Prog.within_pure
    | ok u =>
      refine Prog.Within.bind (Prog.within_perform (hA _ rfl)) fun r => ?_
      cases r with
      | error err => exact Prog.within_pure
      | ok u => exact Prog.within_perform (hA _ rfl)

theorem spliceStreams_within : (spliceStreams caller prov o).Within A := by
  refine Prog.Within.bind (Prog.within_perform (hA _ rfl)) fun provAC => ?_
  refine Prog.Within.bind (Prog.within_perform (hA _ rfl)) fun _ =>
    Prog.Within.bind (Prog.within_perform (hA _ rfl)) fun _ => Prog.Within.bind ?_ fun _ =>
    Prog.Within.bind (Prog.within_perform (hA _ rfl)) fun _ => Prog.within_pure
  cases provAC with
  | none => exact Prog.within_pure
  | some ac => exact Prog.Within.bind (Prog.within_perform (hA _ rfl)) fun _ => Prog.within_pure

theorem awaitAccept_within {relayMode : RelayMode} :
    (awaitAccept cfg caller prov o relayMode).Within A := by
  refine Prog.Within.bind (Prog.within_perform (hA _ rfl)) fun r => ?_
  match r with
  | .error err => exact Prog.within_pure
  | .ok .streamAccept =>
    dsimp only
    split_ifs
    · exact grantForward_within hA
    · exact spliceStreams_within hA
  | .ok (.streamReject code reason) => exact reject_within hA
  | .ok (.openStream _) | .ok (.forwardStream _) | .ok (.streamResume _) | .ok (.migrateToRelay _)
  | .ok (.other _) => exact Prog.within_pure

/-- **After `openIncoming` the handler only serves the stream.** -/
theorem serveOpened_within {p2pMode : P2PMode} {relayMode : RelayMode}
    {r : Except GoString Unit} : (serveOpened cfg caller prov o p2pMode relayMode r).Within A := by
  cases r with
  | error err =>
    rw [serveOpened]
    exact reject_within hA
  | ok u =>
    rw [serveOpened]
    refine Prog.Within.bind (Prog.Within.bind (Prog.within_perform (hA _ rfl)) fun recorded => ?_)
      fun _ => Prog.within_perform (hA _ rfl)
    cases recorded with
    | false =>
      rw [if_neg Bool.false_ne_true]
      exact reject_within hA
    | true =>
      refine Prog.Within.bind ?_ fun _ => Prog.within_perform (hA _ rfl)
      split_ifs
      · refine Prog.Within.bind ?_ fun _ => Prog.within_perform (hA _ rfl)
        exact Prog.Within.bind (Prog.within_perform (hA _ rfl)) fun _ => awaitAccept_within hA
      · exact awaitAccept_within hA

theorem forwardToPeer_within {remote : Remote} (hF : ∀ op, isForwarding op = true → A op) :
    (forwardToPeer caller o remote).Within A := by
  refine Prog.Within.bind (Prog.within_perform (hF _ rfl)) fun r => ?_
  cases r with
  | error err => exact reject_within hA
  | ok u =>
    refine Prog.Within.bind (forwardStream_within (hF _ rfl) (fun _ => hF _ rfl) (hF _ rfl)
      (hF _ rfl)) fun r => ?_
    cases r with
    | error err =>
      exact Prog.Within.bind (Prog.within_perform (hF _ rfl)) fun _ => reject_within hA
    | ok u =>
      refine Prog.Within.bind ?_ fun _ => Prog.within_perform (hF _ rfl)
      exact Prog.Within.bind (Prog.within_perform (hF _ rfl)) fun _ => Prog.within_pure

end Serving

theorem not_isContact_of_isServing (op : EdgeOp) (h : isServing op = true) :
    isContact op = false := by
  unfold isServing at h
  split at h
  all_goals first | rfl | cases h

/-! ## The handler of an agent's stream -/

/-- What a provider on this relay is told of the stream `o` of `caller`. -/
def localStream (caller : AgentConn) (o : OpenStream) (resumeRelays : List GoString) :
    IncomingStream :=
  ⟨o.targetService, o.method, caller.uri, o.streamID, resumeRelays⟩

/-- What a peer relay is told. The stream id stays behind. -/
def remoteStream (caller : AgentConn) (o : OpenStream) : IncomingStream :=
  ⟨o.targetService, o.method, caller.uri, 0, []⟩

/-- **The contacts of an agent's stream**: a provider is told, or a peer relay is
dialled, then asked, and joined with the consumer once it has accepted. -/
inductive ConsumerContact (caller : AgentConn) (o : OpenStream) (tr : List EdgeEvent) :
    EdgeOp → Prop
  | tell (prov : AgentConn) (resumeRelays : List GoString) (h : contacts tr = []) :
      ConsumerContact caller o tr
        (.writeFrame (.provider prov) (.incomingStream (localStream caller o resumeRelays)))
  | dial (h : contacts tr = []) : ConsumerContact caller o tr .openPeerStream
  | ask (h : contacts tr = [.openPeerStream]) :
      ConsumerContact caller o tr (.writeFrame .peer (.forwardStream (remoteStream caller o)))
  | join (h : contacts tr
        = [.openPeerStream, .writeFrame .peer (.forwardStream (remoteStream caller o))])
      (haccept : ∃ ev ∈ tr, isAccepted ev = true) :
      ConsumerContact caller o tr (.splice .consumer .peer)

theorem framed_consumerContact : Framed (ConsumerContact caller o) := by
  intro tr tr' op htr h
  have hc : contacts (tr ++ tr') = contacts tr' := contacts_append_of_nil htr
  cases h with
  | tell prov resumeRelays h => exact .tell prov resumeRelays (hc.trans h)
  | dial h => exact .dial (hc.trans h)
  | ask h => exact .ask (hc.trans h)
  | join h haccept =>
    obtain ⟨ev, hev, ha⟩ := haccept
    exact .join (hc.trans h) ⟨ev, List.mem_append_right _ hev, ha⟩

/-- `openIncoming` tells the provider, first and last. -/
theorem openIncoming_contacts {C : List EdgeEvent → EdgeOp → Prop} {service method uri : GoString}
    {streamID : UInt64}
    (hC : ∀ tr resumeRelays, contacts tr = [] → C tr (.writeFrame (.provider prov)
      (.incomingStream ⟨service, method, uri, streamID, resumeRelays⟩))) :
    ContactSites C (openIncoming prov service method uri streamID) := by
  refine Prog.sites_call.mpr ⟨nofun, fun r => ?_⟩
  cases r with
  | error err => exact Prog.sites_pure
  | ok u =>
    refine Prog.sites_call.mpr ⟨nofun, fun resumeRelays => ?_⟩
    refine Prog.sites_call.mpr ⟨fun _ => hC _ resumeRelays rfl, fun r => ?_⟩
    cases r with
    | error err => exact Prog.sites_call.mpr ⟨nofun, fun _ => Prog.sites_pure⟩
    | ok u => exact Prog.sites_pure

theorem dispatchStream_contacts {p2pMode : P2PMode} {relayMode : RelayMode} :
    ContactSites (ConsumerContact caller o)
      (dispatchStream cfg caller prov o p2pMode relayMode) := by
  rw [dispatchStream_eq]
  exact ContactSites.bind_done (openIncoming_contacts fun tr resumeRelays htr =>
    .tell prov resumeRelays htr) fun r => serveOpened_within not_isContact_of_isServing

/-- `forwardStream` dials and asks. -/
theorem forwardStream_contacts : ContactSites (ConsumerContact caller o)
    (forwardStream o.targetService o.method caller.uri) := by
  have hclose : ∀ {C : List EdgeEvent → EdgeOp → Prop} (err : ForwardError), ContactSites C (do
      perform (.closeStream .peer)
      pure (.error err) : Handler (Except ForwardError Unit)) := fun err =>
    contactSites_of_inert (Prog.Within.bind (inert_perform rfl) fun _ => Prog.within_pure)
  refine Prog.sites_call.mpr ⟨fun _ => .dial rfl, fun r => ?_⟩
  cases r with
  | error err => exact Prog.sites_pure
  | ok u =>
    refine Prog.sites_call.mpr ⟨fun _ => .ask rfl, fun r => ?_⟩
    cases r with
    | error err => exact hclose _
    | ok u =>
      refine Prog.sites_call.mpr ⟨nofun, fun r => ?_⟩
      match r with
      | .ok .streamAccept => exact Prog.sites_pure
      | .error err | .ok (.streamReject _ _) | .ok (.openStream _) | .ok (.forwardStream _)
      | .ok (.streamResume _) | .ok (.migrateToRelay _) | .ok (.other _) => exact hclose _

/-- A stream that has been forwarded has been dialled, asked for, and accepted. -/
theorem forwardStream_ok : (forwardStream o.targetService o.method caller.uri).All fun tr r =>
    r = .ok () → contacts tr
        = [.openPeerStream, .writeFrame .peer (.forwardStream (remoteStream caller o))]
      ∧ ∃ ev ∈ tr, isAccepted ev = true := by
  have hfail : ∀ {Q : List EdgeEvent → Prop} (err : ForwardError), (do
      perform (.closeStream .peer)
      pure (.error err) : Handler (Except ForwardError Unit)).All fun tr r => r = .ok () → Q tr :=
    fun err => fun _ => nofun
  refine Prog.all_call.mpr fun r => ?_
  cases r with
  | error err => exact nofun
  | ok u =>
    refine Prog.all_call.mpr fun r => ?_
    cases r with
    | error err => exact hfail _
    | ok u =>
      refine Prog.all_call.mpr fun r => ?_
      match r with
      | .ok .streamAccept =>
        exact fun _ => ⟨rfl, ⟨.parseFrame .peer, .ok .streamAccept⟩, by simp, rfl⟩
      | .error err | .ok (.streamReject _ _) | .ok (.openStream _) | .ok (.forwardStream _)
      | .ok (.streamResume _) | .ok (.migrateToRelay _) | .ok (.other _) => exact hfail _

theorem forwardToPeer_contacts {remote : Remote} :
    ContactSites (ConsumerContact caller o) (forwardToPeer caller o remote) := by
  refine ContactSites.bind_inert framed_consumerContact (inert_perform rfl) fun r => ?_
  cases r with
  | error err => exact contactSites_of_inert rejectConsumer_inert
  | ok u =>
    refine Prog.sites_bind.mpr ⟨forwardStream_contacts, Prog.All.imp forwardStream_ok
      fun tr r htr => ?_⟩
    cases r with
    | error err =>
      exact Prog.Sites.imp (Prog.Within.bind (inert_perform rfl) fun _ => rejectConsumer_inert)
        fun _ _ hq hc => by cases hq.symm.trans hc
    | ok u =>
      obtain ⟨hcontacts, haccept⟩ := htr rfl
      refine Prog.sites_bind.mpr ⟨Prog.sites_call.mpr ⟨fun _ => ?_, fun _ => Prog.sites_pure⟩,
        Prog.all_iff.mpr fun _ _ _ => Prog.sites_perform.mpr nofun⟩
      rw [List.append_nil]
      exact .join hcontacts haccept

theorem routeStream_contacts {p2pMode : P2PMode} {relayMode : RelayMode} :
    ContactSites (ConsumerContact caller o) (routeStream cfg caller o p2pMode relayMode) := by
  refine ContactSites.bind_inert framed_consumerContact resolve_inert fun r => ?_
  match r with
  | .error (.providerRemote remote) =>
    dsimp only
    split_ifs
    · exact contactSites_of_inert rejectConsumer_inert
    · exact forwardToPeer_contacts
  | .error .noTenant | .error (.rpcFailed _) | .error .serviceNotFound =>
    exact contactSites_of_inert rejectConsumer_inert
  | .ok prov =>
    dsimp only
    split_ifs
    · refine ContactSites.bind_inert framed_consumerContact (inert_perform rfl) fun callee => ?_
      refine ContactSites.bind_inert framed_consumerContact (inert_perform rfl) fun _ => ?_
      split_ifs
      · exact contactSites_of_inert rejectConsumer_inert
      · exact dispatchStream_contacts
    · exact dispatchStream_contacts

/-- **The policy of the caller has let the stream through**, where there is one. -/
def CallerAllowed (cfg : EdgeConfig) (caller : AgentConn) (o : OpenStream)
    (tr : List EdgeEvent) : Prop :=
  cfg.policy = true → ∃ dec : Result, ⟨.evaluate caller.uri o.targetService o.method, dec⟩ ∈ tr
    ∧ dec.decision ≠ .deny

theorem handleOpenStream_contacts :
    ContactSites (fun tr op => ConsumerContact caller o tr op ∧ CallerAllowed cfg caller o tr)
      (handleOpenStream cfg caller o) := by
  unfold handleOpenStream
  split_ifs with hpolicy
  · refine Prog.sites_call.mpr ⟨nofun, fun dec => Prog.sites_call.mpr ⟨nofun, fun _ => ?_⟩⟩
    split_ifs with hdeny
    · exact Prog.Sites.imp rejectConsumer_inert fun _ _ hq hc => by cases hq.symm.trans hc
    · refine Prog.Sites.imp routeStream_contacts fun tr op h hc => ⟨?_, fun _ => ?_⟩
      · exact framed_consumerContact [_, _] tr op rfl (h hc)
      · exact ⟨dec, List.mem_cons_self, hdeny⟩
  · exact Prog.Sites.imp routeStream_contacts fun tr op h hc =>
      ⟨h hc, fun hp => absurd hp hpolicy⟩

/-- **A contact of an agent's stream**: the first event is the `OPEN_STREAM` that it
is about, and the policy of the caller has let it through. -/
def ConsumerSite (cfg : EdgeConfig) (caller : AgentConn) (tr : List EdgeEvent) (op : EdgeOp) :
    Prop :=
  ∃ o, tr.head? = some ⟨.parseFrame .consumer, .ok (.openStream (some o))⟩
    ∧ ConsumerContact caller o tr op ∧ CallerAllowed cfg caller o tr

/-- **An agent's stream tells one provider or asks one relay**, in the name of the
agent and after the policy of the caller has let it through. -/
theorem handleConsumerStream_contacts :
    ContactSites (ConsumerSite cfg caller) (handleConsumerStream cfg caller) := by
  refine ContactSites.bind_done ?_ fun _ => inert_perform rfl
  refine Prog.sites_call.mpr ⟨nofun, fun r => ?_⟩
  match r with
  | .ok (.openStream (some o)) =>
    refine Prog.Sites.imp handleOpenStream_contacts fun tr op h hc => ?_
    obtain ⟨hcontact, hallowed⟩ := h hc
    refine ⟨o, rfl, framed_consumerContact [_] tr op rfl hcontact, fun hp => ?_⟩
    obtain ⟨dec, hmem, hdeny⟩ := hallowed hp
    exact ⟨dec, List.mem_cons_of_mem _ hmem, hdeny⟩
  | .ok (.streamResume _) | .ok (.migrateToRelay _) => exact Prog.sites_perform.mpr nofun
  | .error err | .ok (.openStream none) | .ok (.forwardStream _) | .ok .streamAccept
  | .ok (.streamReject _ _) | .ok (.other _) => exact Prog.sites_pure

/-! ## The handler of a forwarded stream -/

/-- What a provider is told of a forwarded stream. -/
def passedStream (m : IncomingStream) (resumeRelays : List GoString) : IncomingStream :=
  { m with resumeRelays := resumeRelays }

/-- **The contacts of a forwarded stream**: a provider is told, and the peer once
that provider has accepted. -/
inductive ForwardedContact (m : IncomingStream) (tr : List EdgeEvent) : EdgeOp → Prop
  | tell (prov : AgentConn) (resumeRelays : List GoString) (h : contacts tr = []) :
      ForwardedContact m tr
        (.writeFrame (.provider prov) (.incomingStream (passedStream m resumeRelays)))
  | accept (prov : AgentConn) (resumeRelays : List GoString)
      (h : contacts tr
        = [.writeFrame (.provider prov) (.incomingStream (passedStream m resumeRelays))])
      (haccept : ⟨.parseFrame (.provider prov), .ok .streamAccept⟩ ∈ tr) :
      ForwardedContact m tr (.writeFrame .peer .streamAccept)

theorem framed_forwardedContact : Framed (ForwardedContact m) := by
  intro tr tr' op htr h
  have hc : contacts (tr ++ tr') = contacts tr' := contacts_append_of_nil htr
  cases h with
  | tell prov resumeRelays h => exact .tell prov resumeRelays (hc.trans h)
  | accept prov resumeRelays h haccept =>
    exact .accept prov resumeRelays (hc.trans h) (List.mem_append_right _ haccept)

/-- A provider that the stream has been opened to has been told. -/
theorem openIncoming_ok {service method uri : GoString} {streamID : UInt64} :
    (openIncoming prov service method uri streamID).All fun tr r => r = .ok () →
      ∃ resumeRelays, contacts tr = [.writeFrame (.provider prov)
        (.incomingStream ⟨service, method, uri, streamID, resumeRelays⟩)] := by
  refine Prog.all_call.mpr fun r => ?_
  cases r with
  | error err => exact nofun
  | ok u =>
    refine Prog.all_call.mpr fun resumeRelays => Prog.all_call.mpr fun r => ?_
    cases r with
    | error err => exact fun _ => nofun
    | ok u => exact fun _ => ⟨resumeRelays, rfl⟩

/-- The end of the handler, after a provider has been told. -/
theorem answerPeer_sites {tr : List EdgeEvent} {resumeRelays : List GoString}
    (h : contacts tr
      = [.writeFrame (.provider prov) (.incomingStream (passedStream m resumeRelays))]) :
    (answerPeer prov).Sites fun tr' op => isContact op = true →
      ForwardedContact m (tr ++ tr') op := by
  refine Prog.sites_call.mpr ⟨nofun, fun r => ?_⟩
  match r with
  | .ok .streamAccept =>
    refine Prog.sites_call.mpr ⟨fun _ => ?_, fun r => ?_⟩
    · refine .accept prov resumeRelays ?_ (by simp)
      rw [contacts_append, h]
      rfl
    · cases r with
      | error err => exact Prog.sites_pure
      | ok u => exact Prog.sites_call.mpr ⟨nofun, fun _ => Prog.sites_pure⟩
  | .error err | .ok (.streamReject _ _) | .ok (.openStream _) | .ok (.forwardStream _)
  | .ok (.streamResume _) | .ok (.migrateToRelay _) | .ok (.other _) =>
    exact Prog.Sites.imp writeStreamReject_inert fun _ _ hq hc => by cases hq.symm.trans hc

theorem dispatchForwarded_contacts :
    ContactSites (ForwardedContact m) (dispatchForwarded cfg m) := by
  refine ContactSites.bind_inert framed_forwardedContact resolve_inert fun r => ?_
  cases r with
  | error err => exact contactSites_of_inert writeStreamReject_inert
  | ok prov =>
    refine Prog.sites_bind.mpr ⟨openIncoming_contacts fun tr resumeRelays htr =>
      .tell prov resumeRelays htr, Prog.All.imp openIncoming_ok fun tr r htr => ?_⟩
    cases r with
    | error err =>
      exact Prog.Sites.imp writeStreamReject_inert fun _ _ hq hc => by cases hq.symm.trans hc
    | ok u =>
      obtain ⟨resumeRelays, hcontacts⟩ := htr rfl
      exact Prog.sites_bind.mpr ⟨answerPeer_sites hcontacts, Prog.all_iff.mpr fun _ _ _ =>
        Prog.sites_perform.mpr nofun⟩

/-- **A contact of a forwarded stream**: the first event is the `FORWARD_STREAM` that
it is about. -/
def ForwardedSite (tr : List EdgeEvent) (op : EdgeOp) : Prop :=
  ∃ m, tr.head? = some ⟨.parseFrame .peer, .ok (.forwardStream (some m))⟩
    ∧ ForwardedContact m tr op

/-- **A forwarded stream tells one provider, and goes no further.** -/
theorem handleForwardedStream_contacts :
    ContactSites ForwardedSite (handleForwardedStream cfg) := by
  refine ContactSites.bind_done ?_ fun _ => inert_perform rfl
  refine Prog.sites_call.mpr ⟨nofun, fun r => ?_⟩
  match r with
  | .ok (.forwardStream (some m)) =>
    exact Prog.Sites.imp dispatchForwarded_contacts fun tr op h hc =>
      ⟨m, rfl, framed_forwardedContact [_] tr op rfl (h hc)⟩
  | .error err | .ok (.openStream _) | .ok (.forwardStream none) | .ok .streamAccept
  | .ok (.streamReject _ _) | .ok (.streamResume _) | .ok (.migrateToRelay _) | .ok (.other _) =>
    exact Prog.sites_pure

end Handler
