import OutRelay.Handlers

/-!
# The successor lists of a stream

A relay hands the agents of a stream the list of relays to go to if it dies. The
handler of an `OPEN_STREAM` reads that list twice. `OpenIncoming` reads it for
the `INCOMING_STREAM` to the provider; once the provider has accepted, the list
is read again, for `STREAM_READY` or `ALLOC_GRANTED` to both agents. In between
the provider may take its time, and the list may change.

The second list overrides the first where it reaches the provider. In forward
mode it always does: a provider without a control channel is rejected. In splice
mode it does not where the lookup of the provider's control channel fails, and
the bytes flow all the same.

`listEvent?` keeps of a path what there is to know about this: the reads, the
lookups, and the frames that carry a list. `handleOpenStream_informed` says what
is left of the path when bytes start to flow, and that every frame carries the
list that was read last.
-/

namespace Handler

/-- What a path tells about the successor list: the list is read, a control
channel is looked up, and a frame with a list is written to an agent. -/
inductive ListEvent
  | read (l : List GoString)
  | lookup (uri : GoString) (ac : Option AgentConn)
  | handed (uri : GoString) (streamID : UInt64) (l : List GoString)

def listEvent? : EdgeEvent → Option ListEvent
  | ⟨.successors, l⟩ => some (.read l)
  | ⟨.lookupAgent uri, ac⟩ => some (.lookup uri ac)
  | ⟨.writeFrame (.provider ac) (.incomingStream m), .ok ()⟩ =>
    some (.handed ac.uri m.streamID m.resumeRelays)
  | ⟨.writeCtrl ac (.streamReady streamID l), .ok ()⟩ => some (.handed ac.uri streamID l)
  | ⟨.writeCtrl ac (.allocGranted m), .ok ()⟩ => some (.handed ac.uri m.streamID m.resumeRelays)
  | _ => none

/-- The list events of a path. -/
def listEvents (tr : List EdgeEvent) : List ListEvent := tr.filterMap listEvent?

theorem listEvents_append (tr tr' : List EdgeEvent) :
    listEvents (tr ++ tr') = listEvents tr ++ listEvents tr' :=
  List.filterMap_append

theorem listEvents_snoc (tr : List EdgeEvent) (ev : EdgeEvent) :
    listEvents (tr ++ [ev]) = listEvents tr ++ (listEvent? ev).toList := by
  rw [listEvents_append]
  cases h : listEvent? ev <;> simp [listEvents, h]

namespace ListEvent

def read? : ListEvent → Option (List GoString)
  | .read l => some l
  | _ => none

/-- The list in a frame to the agent `uri` for the stream `streamID`. -/
def handedTo? (uri : GoString) (streamID : UInt64) : ListEvent → Option (List GoString)
  | .handed uri' streamID' l => if (uri', streamID') = (uri, streamID) then some l else none
  | _ => none

end ListEvent

/-- The lists that have been read, oldest first. -/
def reads (evs : List ListEvent) : List (List GoString) := evs.filterMap ListEvent.read?

theorem reads_append (evs evs' : List ListEvent) :
    reads (evs ++ evs') = reads evs ++ reads evs' :=
  List.filterMap_append

/-- **The list most recently handed to an agent** for a stream. -/
def lastHanded (uri : GoString) (streamID : UInt64) (evs : List ListEvent) :
    Option (List GoString) :=
  (evs.filterMap (ListEvent.handedTo? uri streamID)).getLast?

/-- What comes last decides, if it hands out a list. -/
theorem lastHanded_append {uri : GoString} {streamID : UInt64} {evs : List ListEvent}
    {ev : Option ListEvent} : lastHanded uri streamID (evs ++ ev.toList)
      = (ev.bind (ListEvent.handedTo? uri streamID)).or (lastHanded uri streamID evs) := by
  unfold lastHanded
  rw [List.filterMap_append]
  cases ev with
  | none => simp
  | some ev => cases h : ev.handedTo? uri streamID <;> simp [h]

theorem mem_of_lastHanded {uri : GoString} {streamID : UInt64} {evs : List ListEvent}
    {l : List GoString} (h : lastHanded uri streamID evs = some l) :
    .handed uri streamID l ∈ evs := by
  obtain ⟨ev, hev, hto⟩ := List.mem_filterMap.mp (List.mem_of_getLast? h)
  cases ev with
  | handed uri' streamID' l' =>
    simp only [ListEvent.handedTo?] at hto
    split_ifs at hto with hkey
    cases hkey
    cases hto
    exact hev
  | read l' => cases hto
  | lookup uri' ac => cases hto

/-- The relay answers a lookup with a connection of the agent asked for, and
control writes succeed. -/
def Honest : EdgeEvent → Prop
  | ⟨.lookupAgent uri, some ac⟩ => ac.uri = uri
  | ⟨.writeCtrl _ _, .error _⟩ => False
  | _ => True

/-- What `OpenIncoming` leaves: a list is read, and handed to the provider. -/
def opened (prov : AgentConn) (sid : UInt64) (l : List GoString) : List ListEvent :=
  [.read l, .handed prov.uri sid l]

/-- **What the agents have been told when the handler performs an operation.**
Where it splices or drains the two streams, the provider has been handed the
list `l₀` that was read first, and the caller the list `l` that was read after
the lookup of the provider's control channel – as has the provider, if it has
one. A frame that carries a list carries the one read last. -/
def Informed (caller : AgentConn) (sid : UInt64) (evs : List ListEvent) : EdgeOp → Prop
  | .splice .consumer (.provider prov) => ∃ l₀ l provAC,
      evs = opened prov sid l₀ ++ [.lookup prov.uri provAC, .read l, .handed caller.uri sid l]
        ++ (provAC.map (fun ac => ListEvent.handed ac.uri sid l)).toList
  | .drain .consumer (.provider prov) => ∃ l₀ l ac,
      evs = opened prov sid l₀ ++ [.lookup prov.uri (some ac), .read l, .handed caller.uri sid l,
        .handed ac.uri sid l]
  | .writeFrame (.provider _) (.incomingStream m) => (reads evs).getLast? = some m.resumeRelays
  | .writeCtrl _ (.streamReady _ l) => (reads evs).getLast? = some l
  | .writeCtrl _ (.allocGranted m) => (reads evs).getLast? = some m.resumeRelays
  | _ => True

/-- The operations that neither leave a list event nor say anything of one. -/
def plain : EdgeOp → Bool
  | .successors | .lookupAgent _ => false
  | .splice .consumer (.provider _) | .drain .consumer (.provider _) => false
  | .writeFrame (.provider _) (.incomingStream _) => false
  | .writeCtrl _ (.streamReady _ _) | .writeCtrl _ (.allocGranted _) => false
  | _ => true

theorem informed_of_plain {caller : AgentConn} {sid : UInt64} {evs : List ListEvent} {o : EdgeOp}
    (ho : plain o = true) : Informed caller sid evs o := by
  unfold Informed
  split <;> trivial

theorem listEvent?_of_plain {ev : EdgeEvent} (ho : plain ev.op = true) : listEvent? ev = none := by
  unfold listEvent?
  split <;> first | rfl | cases ho

/-! ## Rules -/

/-- Every operation of `p` is plain. -/
def Plain {α : Type} (p : Handler α) : Prop := p.Sites (fun _ o => plain o = true)

variable {α β : Type} {p : Handler α} {k : α → Handler β}

theorem plain_perform {o : EdgeOp} (ho : plain o = true) : Plain (perform o) :=
  Prog.sites_perform.mpr ho

theorem Plain.bind (hp : Plain p) (hk : ∀ a, Plain (k a)) : Plain (p >>= k) :=
  Prog.Within.bind hp hk

theorem Plain.defer {d p : Handler Unit} (hp : Plain p) (hd : Plain d) :
    Plain (Handler.defer d p) :=
  hp.bind fun _ => hd

theorem Plain.listEvents (hp : Plain p) : p.All (fun tr _ => listEvents tr = []) := by
  refine Prog.All.imp hp.only fun tr _ htr => ?_
  exact List.filterMap_eq_nil_iff.mpr fun ev hev => listEvent?_of_plain (htr ev hev)

variable (caller : AgentConn) (sid : UInt64)

/-- **Wherever `p` performs an operation, the agents have been told** what
`Informed` says, if the list events `evs` came before and the relay has been
honest. -/
def Sited {α : Type} (evs : List ListEvent) (p : Handler α) : Prop :=
  p.Sites (fun tr o => (∀ ev ∈ tr, Honest ev) → Informed caller sid (evs ++ listEvents tr) o)

variable {caller sid} {evs : List ListEvent}

theorem Plain.sited (hp : Plain p) : Sited caller sid evs p :=
  Prog.Sites.imp hp fun _ _ ho _ => informed_of_plain ho

/-- **The rule for an operation.** -/
theorem Sited.call {o : EdgeOp} {k : o.Ans → Handler α} (ho : Informed caller sid evs o)
    (hk : ∀ r, Honest ⟨o, r⟩ → Sited caller sid (evs ++ listEvents [⟨o, r⟩]) (k r)) :
    Sited caller sid evs (Prog.call o k) := by
  refine ⟨fun _ => ?_, fun r => ?_⟩
  · show Informed caller sid (evs ++ []) o
    rw [List.append_nil]
    exact ho
  · by_cases hr : Honest ⟨o, r⟩
    · refine Prog.Sites.imp (hk r hr) fun tr o' h hall => ?_
      have hlist : listEvents (⟨o, r⟩ :: tr) = listEvents [⟨o, r⟩] ++ listEvents tr :=
        listEvents_append [⟨o, r⟩] tr
      rw [hlist, ← List.append_assoc]
      exact h (List.forall_mem_cons.mp hall).2
    · exact Prog.sites_of_forall fun tr o' hall => absurd (hall _ List.mem_cons_self) hr

/-- Plain operations come before. -/
theorem Sited.bind (hp : Plain p) (hk : ∀ a, Sited caller sid evs (k a)) :
    Sited caller sid evs (p >>= k) := by
  refine Prog.sites_bind.mpr ⟨hp.sited, Prog.All.imp hp.listEvents fun tr a htr => ?_⟩
  refine Prog.Sites.imp (hk a) fun tr' o h hall => ?_
  rw [listEvents_append, htr]
  exact h (List.forall_mem_append.mp hall).2

/-- Plain operations are deferred. -/
theorem Sited.defer {d p : Handler Unit} (hp : Sited caller sid evs p) (hd : Plain d) :
    Sited caller sid evs (Handler.defer d p) :=
  Prog.sites_bind.mpr ⟨hp, Prog.all_iff.mpr fun _ _ _ =>
    Prog.Sites.imp hd fun _ _ ho _ => informed_of_plain ho⟩

/-! ## The handlers -/

theorem rejectConsumer_plain {ac : AgentConn} {streamID : UInt64} {code : UInt32}
    {reason : GoString} : Plain (rejectConsumer ac .consumer streamID code reason) :=
  rejectConsumer_within (fun _ => rfl) (fun _ => rfl)

theorem resolve_plain {cfg : EdgeConfig} {uri name : GoString} : Plain (resolve cfg uri name) :=
  resolve_within (fun _ _ _ => rfl) (fun _ => rfl)

/-- A frame after a read carries what was read. -/
theorem getLast?_reads (evs evs' : List ListEvent) (l : List GoString)
    (h : reads evs' = []) : (reads (evs ++ .read l :: evs')).getLast? = some l := by
  rw [reads_append, show reads (.read l :: evs') = l :: reads evs' from rfl, h]
  exact List.getLast?_concat

/-- **`OpenIncoming`** reads the list and hands it to the provider, or fails. -/
theorem openIncoming_sited {ac : AgentConn} {service method uri : GoString} {streamID : UInt64}
    {k : Except GoString Unit → Handler β} (herr : ∀ evs err, Sited caller sid evs (k (.error err)))
    (hok : ∀ l, Sited caller sid (evs ++ opened ac streamID l) (k (.ok ()))) :
    Sited caller sid evs (openIncoming ac service method uri streamID >>= k) := by
  refine Sited.call (o := .openAgentStream ac) trivial fun r _ => ?_
  cases r with
  | error err => exact herr _ err
  | ok u =>
    show Sited caller sid (evs ++ []) _
    rw [List.append_nil]
    refine Sited.call (o := .successors) trivial fun l _ => ?_
    refine Sited.call (o := .writeFrame (.provider ac) (.incomingStream ⟨service, method, uri,
      streamID, l⟩)) (getLast?_reads evs [] l rfl) fun r _ => ?_
    cases r with
    | error err => exact Sited.call (o := .closeStream (.provider ac)) trivial fun _ _ => herr _ err
    | ok u =>
      show Sited caller sid (evs ++ [.read l] ++ [.handed ac.uri streamID l]) _
      rw [List.append_assoc]
      exact hok l

theorem spliceStreams_sited {prov : AgentConn} {o : OpenStream} {l₀ : List GoString} :
    Sited caller o.streamID (opened prov o.streamID l₀) (spliceStreams caller prov o) := by
  refine Sited.call (o := .lookupAgent prov.uri) trivial fun provAC _ => ?_
  refine Sited.call (o := .successors) trivial fun l _ => ?_
  refine Sited.call (o := .writeCtrl caller (.streamReady o.streamID l)) rfl fun r hr => ?_
  cases r with
  | error err => exact hr.elim
  | ok u =>
    cases provAC with
    | none =>
      exact Sited.call (o := .splice .consumer (.provider prov)) ⟨l₀, l, none, rfl⟩
        fun _ _ => trivial
    | some ac =>
      refine Sited.call (o := .writeCtrl ac (.streamReady o.streamID l)) rfl fun r hr => ?_
      cases r with
      | error err => exact hr.elim
      | ok u =>
        exact Sited.call (o := .splice .consumer (.provider prov)) ⟨l₀, l, some ac, rfl⟩
          fun _ _ => trivial

theorem grantForward_sited {prov : AgentConn} {o : OpenStream} {l₀ : List GoString} :
    Sited caller o.streamID (opened prov o.streamID l₀) (grantForward caller prov o) := by
  refine Sited.call (o := .lookupAgent prov.uri) trivial fun provAC _ => ?_
  cases provAC with
  | none => exact rejectConsumer_plain.sited
  | some ac =>
    refine Sited.call (o := .allocate caller.uri) trivial fun consumerAlloc _ => ?_
    refine Sited.call (o := .allocate ac.uri) trivial fun providerAlloc _ => ?_
    refine Sited.defer (Sited.defer ?_ (plain_perform rfl)) (plain_perform rfl)
    refine Sited.call (o := .forwardEndpoint) trivial fun fwdEndpoint _ => ?_
    refine Sited.call (o := .successors) trivial fun l _ => ?_
    refine Sited.call (o := .writeCtrl caller (.allocGranted
      ⟨o.streamID, consumerAlloc, providerAlloc, fwdEndpoint, l⟩)) rfl fun r hr => ?_
    cases r with
    | error err => exact hr.elim
    | ok u =>
      refine Sited.call (o := .writeCtrl ac (.allocGranted
        ⟨o.streamID, providerAlloc, consumerAlloc, fwdEndpoint, l⟩)) rfl fun r hr => ?_
      cases r with
      | error err => exact hr.elim
      | ok u =>
        exact Sited.call (o := .drain .consumer (.provider prov)) ⟨l₀, l, ac, rfl⟩
          fun _ _ => trivial

theorem awaitAccept_sited {cfg : EdgeConfig} {prov : AgentConn} {o : OpenStream}
    {relayMode : RelayMode} {l₀ : List GoString} :
    Sited caller o.streamID (opened prov o.streamID l₀)
      (awaitAccept cfg caller prov o relayMode) := by
  refine Sited.bind (plain_perform rfl) fun r => ?_
  match r with
  | .error err => trivial
  | .ok .streamAccept =>
    dsimp only
    split_ifs
    · exact grantForward_sited
    · exact spliceStreams_sited
  | .ok (.streamReject code reason) => exact rejectConsumer_plain.sited
  | .ok (.openStream _) | .ok (.forwardStream _) | .ok (.streamResume _) | .ok (.migrateToRelay _)
  | .ok (.other _) => trivial

theorem dispatchStream_sited {cfg : EdgeConfig} {prov : AgentConn} {o : OpenStream}
    {p2pMode : P2PMode} {relayMode : RelayMode} :
    Sited caller o.streamID [] (dispatchStream cfg caller prov o p2pMode relayMode) := by
  refine openIncoming_sited (fun _ _ => rejectConsumer_plain.sited) fun l₀ => ?_
  refine Sited.defer (Sited.bind (plain_perform rfl) fun recorded => ?_) (plain_perform rfl)
  cases recorded with
  | false => exact rejectConsumer_plain.sited
  | true =>
    refine Sited.defer ?_ (plain_perform rfl)
    split_ifs
    · exact Sited.defer (Sited.bind (plain_perform rfl) fun _ => awaitAccept_sited)
        (plain_perform rfl)
    · exact awaitAccept_sited

theorem forwardToPeer_plain {ac : AgentConn} {o : OpenStream} {remote : Remote} :
    Plain (forwardToPeer ac o remote) := by
  refine Plain.bind (plain_perform rfl) fun r => ?_
  cases r with
  | error err => exact rejectConsumer_plain
  | ok u =>
    refine Plain.bind (forwardStream_within rfl (fun _ => rfl) rfl rfl) fun r => ?_
    cases r with
    | error err => exact Plain.bind (plain_perform rfl) fun _ => rejectConsumer_plain
    | ok u =>
      exact Plain.defer (Plain.bind (plain_perform rfl) fun _ => trivial) (plain_perform rfl)

theorem routeStream_sited {cfg : EdgeConfig} {o : OpenStream} {p2pMode : P2PMode}
    {relayMode : RelayMode} :
    Sited caller o.streamID [] (routeStream cfg caller o p2pMode relayMode) := by
  refine Sited.bind resolve_plain fun r => ?_
  match r with
  | .error (.providerRemote remote) =>
    dsimp only
    split_ifs
    · exact rejectConsumer_plain.sited
    · exact forwardToPeer_plain.sited
  | .error .noTenant | .error (.rpcFailed _) | .error .serviceNotFound =>
    exact rejectConsumer_plain.sited
  | .ok prov =>
    dsimp only
    split_ifs
    · refine Sited.bind (plain_perform rfl) fun callee => Sited.bind (plain_perform rfl) fun _ => ?_
      split_ifs
      · exact rejectConsumer_plain.sited
      · exact dispatchStream_sited
    · exact dispatchStream_sited

/-- **What the agents of a stream have been told**, along every path of the
handler of its `OPEN_STREAM`. -/
theorem handleOpenStream_informed {cfg : EdgeConfig} {o : OpenStream} :
    Sited caller o.streamID [] (handleOpenStream cfg caller o) := by
  unfold handleOpenStream
  split_ifs
  · refine Sited.bind (plain_perform rfl) fun dec => Sited.bind (plain_perform rfl) fun _ => ?_
    split_ifs
    · exact rejectConsumer_plain.sited
    · exact routeStream_sited
  · exact routeStream_sited

/-- A stream of a peer relay joins no two agents of this one; its
`INCOMING_STREAM` carries the list read for it. -/
theorem handleForwardedStream_informed {cfg : EdgeConfig} :
    Sited caller sid [] (handleForwardedStream cfg) := by
  have hreject : ∀ code reason, Plain (writeStreamReject .peer code reason) :=
    fun _ _ => Plain.bind (plain_perform rfl) fun _ => trivial
  have hanswer : ∀ prov, Plain (answerPeer prov) := by
    intro prov
    refine Plain.bind (plain_perform rfl) fun r => ?_
    match r with
    | .ok .streamAccept =>
      refine Plain.bind (plain_perform rfl) fun r => ?_
      cases r with
      | error err => trivial
      | ok u => exact Plain.bind (plain_perform rfl) fun _ => trivial
    | .error err => exact hreject _ _
    | .ok (.streamReject code reason) => exact hreject _ _
    | .ok (.openStream _) | .ok (.forwardStream _) | .ok (.streamResume _) | .ok (.migrateToRelay _)
    | .ok (.other _) => exact hreject _ _
  have hdispatch : ∀ m, Sited caller sid [] (dispatchForwarded cfg m) := by
    intro m
    refine Sited.bind resolve_plain fun r => ?_
    cases r with
    | error err => exact (hreject _ _).sited
    | ok prov =>
      refine openIncoming_sited (fun _ _ => (hreject _ _).sited) fun l => ?_
      exact (Plain.defer (hanswer prov) (plain_perform rfl)).sited
  refine Sited.defer (Sited.bind (plain_perform rfl) fun r => ?_) (plain_perform rfl)
  match r with
  | .ok (.forwardStream (some m)) => exact hdispatch m
  | .error err => trivial
  | .ok (.forwardStream none) | .ok (.openStream _) | .ok .streamAccept
  | .ok (.streamReject _ _) | .ok (.streamResume _) | .ok (.migrateToRelay _)
  | .ok (.other _) => trivial

/-! ## A handler in progress -/

/-- What is known at the next operation. -/
theorem Sited.site {o : EdgeOp} {k : o.Ans → Handler α}
    (h : Sited caller sid evs (Prog.call o k)) : Informed caller sid evs o := by
  have hsite := h.1 (fun _ hev => absurd hev List.not_mem_nil)
  rwa [show listEvents [] = [] from rfl, List.append_nil] at hsite

/-- The rest of the handler, after an honest answer. -/
theorem Sited.next {o : EdgeOp} {k : o.Ans → Handler α} {r : o.Ans}
    (h : Sited caller sid evs (Prog.call o k)) (hr : Honest ⟨o, r⟩) :
    Sited caller sid (evs ++ listEvents [⟨o, r⟩]) (k r) := by
  refine Prog.Sites.imp (h.2 r) fun tr o' hsite hall => ?_
  rw [List.append_assoc, ← listEvents_append]
  exact hsite (List.forall_mem_cons.mpr ⟨hr, hall⟩)

/-- A frame hands out what was read last. -/
theorem Informed.getLast?_reads {ev : EdgeEvent} {uri : GoString} {streamID : UInt64}
    {l : List GoString} (h : Informed caller sid evs ev.op)
    (hev : listEvent? ev = some (.handed uri streamID l)) : (reads evs).getLast? = some l := by
  unfold listEvent? at hev
  split at hev
  · cases hev
  · cases hev
  · cases hev
    exact h
  · cases hev
    exact h
  · cases hev
    exact h
  · cases hev

theorem eq_of_read {ev : EdgeEvent} {l : List GoString} (h : listEvent? ev = some (.read l)) :
    ev = ⟨.successors, l⟩ := by
  unfold listEvent? at h
  split at h
  · cases h
    rfl
  all_goals cases h

theorem lookup_mem_listEvents {tr : List EdgeEvent} {uri : GoString} {ac : Option AgentConn} :
    .lookup uri ac ∈ listEvents tr ↔ (⟨.lookupAgent uri, ac⟩ : EdgeEvent) ∈ tr := by
  unfold listEvents
  rw [List.mem_filterMap]
  constructor
  · rintro ⟨ev, hev, hlookup⟩
    unfold listEvent? at hlookup
    split at hlookup
    · cases hlookup
    · cases hlookup
      exact hev
    all_goals cases hlookup
  · exact fun h => ⟨_, h, rfl⟩

/-- **The lists of the two agents of a spliced stream.** The provider holds the
second list where it has a control channel, and the first where not – unless the
two are one agent. -/
theorem lastHanded_splice {prov : AgentConn} {l₀ l : List GoString} {provAC : Option AgentConn}
    (hac : ∀ ac, provAC = some ac → ac.uri = prov.uri)
    (hevs : evs = opened prov sid l₀ ++ [.lookup prov.uri provAC, .read l,
      .handed caller.uri sid l] ++ (provAC.map (fun ac => ListEvent.handed ac.uri sid l)).toList) :
    lastHanded caller.uri sid evs = some l ∧ lastHanded prov.uri sid evs
      = some (if provAC = none ∧ caller.uri ≠ prov.uri then l₀ else l) := by
  subst hevs
  cases provAC with
  | none =>
    by_cases hne : caller.uri = prov.uri
    · simp [lastHanded, opened, ListEvent.handedTo?, hne]
    · simp [lastHanded, opened, ListEvent.handedTo?, List.findSome?, hne]
  | some ac =>
    by_cases hne : caller.uri = prov.uri
    · simp [lastHanded, opened, ListEvent.handedTo?, hac ac rfl, hne]
    · simp [lastHanded, opened, ListEvent.handedTo?, hac ac rfl, hne, Ne.symm hne]

end Handler
