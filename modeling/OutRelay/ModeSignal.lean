import OutRelay.Handlers

/-!
# The mode signal of a stream

After `OPEN_STREAM` an agent waits on its control stream for one frame that
names the stream: `STREAM_READY`, `ALLOC_GRANTED` or `STREAM_REJECT`. Without
one it times out and takes the data stream for a spliced one. So every way
through `handleConsumerStream` must write exactly one such frame before bytes
are spliced or the handler returns.

It does, except where one of four answers is given (`misses`): the peer relay
accepts a forwarded stream, the provider's answer cannot be read, it is neither
an acceptance nor a rejection, or the provider's control channel is the
caller's own. The first three lead to no frame, the last to two.

The proof follows the handler. An operation that writes no signal, splices
nothing and gives none of the four answers is `Quiet`, and quiet events can be
added to a path at either end. What is left to check are the leaves.
-/

/-- The frame tells an agent the mode of the stream `sid`. -/
def Message.signals (sid : UInt64) : Message → Bool
  | .streamReady streamID _ => streamID = sid
  | .allocGranted m => m.streamID = sid
  | .streamReject _ _ streamID => streamID = sid
  | _ => false

namespace Handler

variable (caller : AgentConn) (sid : UInt64)

/-- A mode signal is written on the caller's control stream. -/
def isSignal : EdgeEvent → Bool
  | ⟨.writeCtrl ac m, .ok ()⟩ => ac = caller ∧ m.signals sid
  | _ => false

/-- A write on the caller's control stream fails. -/
def ctrlFails : EdgeEvent → Bool
  | ⟨.writeCtrl ac _, .error _⟩ => ac = caller
  | _ => false

/-- **The answers that lead to no signal, or to two.** -/
def misses : EdgeEvent → Bool
  | ⟨.parseFrame .peer, .ok .streamAccept⟩ => true
  | ⟨.parseFrame (.provider _), .error _⟩ => true
  | ⟨.parseFrame (.provider _), .ok .streamAccept⟩ => false
  | ⟨.parseFrame (.provider _), .ok (.streamReject _ _)⟩ => false
  | ⟨.parseFrame (.provider _), .ok _⟩ => true
  | ⟨.lookupAgent _, some ac⟩ => ac = caller
  | _ => false

/-- The operations none of whose answers matters to the signal. -/
def quiet : EdgeOp → Bool
  | .writeCtrl _ _ | .splice _ _ | .lookupAgent _ => false
  | .parseFrame .consumer => true
  | .parseFrame _ => false
  | _ => true

/-- The events before bytes are spliced: all of them, where none are. -/
def beforeSplice (tr : List EdgeEvent) : List EdgeEvent := tr.takeWhile (fun ev => !isSplice ev)

/-- Where the writes on the caller's control stream succeed, exactly one signal
is written before the splice, if and only if no answer misses it. -/
def Signalled (tr : List EdgeEvent) : Prop :=
  (∀ ev ∈ tr, ctrlFails caller ev = false) →
    ((beforeSplice tr).countP (isSignal caller sid) = 1 ↔ ∀ ev ∈ tr, misses caller ev = false)

/-- An event that has nothing to do with the signal. -/
def Quiet (ev : EdgeEvent) : Prop :=
  isSignal caller sid ev = false ∧ ctrlFails caller ev = false ∧ isSplice ev = false
    ∧ misses caller ev = false

variable {caller sid} {tr q : List EdgeEvent} {ev : EdgeEvent}

theorem signalled_cons (hq : Quiet caller sid ev) :
    Signalled caller sid (ev :: tr) ↔ Signalled caller sid tr := by
  obtain ⟨h₁, h₂, h₃, h₄⟩ := hq
  simp [Signalled, beforeSplice, h₁, h₂, h₃, h₄]

theorem signalled_append_left (hq : ∀ ev ∈ q, Quiet caller sid ev) :
    Signalled caller sid (q ++ tr) ↔ Signalled caller sid tr := by
  induction q with
  | nil => rfl
  | cons ev q ih =>
    rw [List.forall_mem_cons] at hq
    rw [List.cons_append, signalled_cons hq.1, ih hq.2]

/-- Quiet events after a path change nothing, whether it has spliced or not. -/
theorem signalled_append_right (hq : ∀ ev ∈ q, Quiet caller sid ev) :
    Signalled caller sid (tr ++ q) ↔ Signalled caller sid tr := by
  have hcount : (beforeSplice (tr ++ q)).countP (isSignal caller sid)
      = (beforeSplice tr).countP (isSignal caller sid) := by
    unfold beforeSplice
    rw [List.takeWhile_append]
    split_ifs with hlen
    · have hzero : (q.takeWhile (fun ev => !isSplice ev)).countP (isSignal caller sid) = 0 :=
        List.countP_eq_zero.mpr fun ev hev =>
          Bool.eq_false_iff.mp (hq ev ((List.takeWhile_sublist _).mem hev)).1
      rw [List.countP_append, hzero, Nat.add_zero,
        (List.takeWhile_prefix _).eq_of_length hlen]
    · rfl
  have hctrl : ∀ ev ∈ q, ctrlFails caller ev = false := fun ev hev => (hq ev hev).2.1
  have hmiss : ∀ ev ∈ q, misses caller ev = false := fun ev hev => (hq ev hev).2.2.2
  unfold Signalled
  rw [hcount, List.forall_mem_append, List.forall_mem_append, and_iff_left hctrl,
    and_iff_left hmiss]

/-- A path with no signal on which an answer misses it. -/
theorem signalled_of_miss (hs : ∀ ev ∈ tr, isSignal caller sid ev = false) (hev : ev ∈ tr)
    (hm : misses caller ev = true) : Signalled caller sid tr := by
  intro _
  have hzero : (beforeSplice tr).countP (isSignal caller sid) = 0 :=
    List.countP_eq_zero.mpr fun ev hev =>
      Bool.eq_false_iff.mp (hs ev ((List.takeWhile_sublist _).mem hev))
  rw [hzero]
  exact ⟨fun h => (nomatch h), fun h => nomatch hm.symm.trans (h ev hev)⟩

/-! ## The rules -/

variable (caller sid) in
/-- Every path of `p` is signalled. -/
def Signals {α : Type} (p : Handler α) : Prop := p.All (fun tr _ => Signalled caller sid tr)

variable {α β : Type} {p : Handler α} {k : α → Handler β} {d : Handler Unit}

/-- Quiet operations come before. -/
theorem Signals.bind (hp : p.Only (Quiet caller sid)) (hk : ∀ a, Signals caller sid (k a)) :
    Signals caller sid (p >>= k) := by
  unfold Signals
  rw [Prog.all_bind]
  refine Prog.All.imp hp fun q a hq => Prog.All.imp (hk a) fun tr _ htr => ?_
  exact (signalled_append_left hq).mpr htr

/-- Quiet operations are deferred. -/
theorem Signals.defer {p : Handler Unit} (hp : Signals caller sid p)
    (hd : d.Only (Quiet caller sid)) : Signals caller sid (defer d p) := by
  unfold Signals Handler.defer
  rw [Prog.all_bind]
  refine Prog.All.imp hp fun tr _ htr => Prog.All.imp hd fun q _ hq => ?_
  exact (signalled_append_right hq).mpr htr

/-- Operations of other kinds are quiet whatever their answer. -/
theorem quiet_event (ho : quiet ev.op = true) : Quiet caller sid ev := by
  obtain ⟨o, r⟩ := ev
  cases o with
  | parseFrame st =>
    cases st with
    | consumer => exact ⟨rfl, rfl, rfl, rfl⟩
    | _ => cases ho
  | writeCtrl | splice | lookupAgent => cases ho
  | _ => exact ⟨rfl, rfl, rfl, rfl⟩

theorem only_quiet {o : EdgeOp} (ho : quiet o = true) : (perform o).Only (Quiet caller sid) :=
  Prog.only_perform.mpr fun _ => quiet_event ho

/-! ## The leaves -/

/-- A path on which the control stream fails. -/
theorem signalled_of_ctrlFails {m : Message} {err : GoString} :
    Signalled caller sid (q ++ ⟨.writeCtrl caller m, .error err⟩ :: tr) := by
  intro hctrl
  have hfails := hctrl _ (List.mem_append_right q List.mem_cons_self)
  simp [ctrlFails] at hfails

/-- A signal, and on either side neither another nor an answer that misses
it. -/
theorem signalled_of_signal {m : Message} {r : Except GoString Unit} (hm : m.signals sid = true)
    (hq : ∀ ev ∈ q, Quiet caller sid ev)
    (htr : ∀ ev ∈ tr, isSignal caller sid ev = false ∧ misses caller ev = false) :
    Signalled caller sid (q ++ ⟨.writeCtrl caller m, r⟩ :: tr) := by
  cases r with
  | error err => exact signalled_of_ctrlFails
  | ok u =>
    refine (signalled_append_left hq).mpr fun _ => ?_
    have hzero : (beforeSplice tr).countP (isSignal caller sid) = 0 :=
      List.countP_eq_zero.mpr fun ev hev =>
        Bool.eq_false_iff.mp (htr ev ((List.takeWhile_sublist _).mem hev)).1
    have hone : (beforeSplice (⟨.writeCtrl caller m, .ok u⟩ :: tr)).countP (isSignal caller sid)
        = (beforeSplice tr).countP (isSignal caller sid) + 1 := by
      unfold beforeSplice
      rw [List.takeWhile_cons_of_pos rfl, List.countP_cons_of_pos]
      simp [isSignal, hm]
    rw [hone, hzero, List.forall_mem_cons]
    exact ⟨fun _ => ⟨rfl, fun ev hev => (htr ev hev).2⟩, fun _ => rfl⟩

/-- Two signals, after an answer that leads to them. -/
theorem signalled_of_two {m m' : Message} {r r' : Except GoString Unit}
    (hq : ∀ ev ∈ q, isSplice ev = false) (hev : ev ∈ q) (hmiss : misses caller ev = true)
    (hm : m.signals sid = true) (hm' : m'.signals sid = true) :
    Signalled caller sid (q ++ ⟨.writeCtrl caller m, r⟩ :: ⟨.writeCtrl caller m', r'⟩ :: tr) := by
  intro hctrl
  have hsig : ∀ {m : Message} {r : Except GoString Unit}, m.signals sid = true →
      ctrlFails caller ⟨.writeCtrl caller m, r⟩ = false →
        isSignal caller sid ⟨.writeCtrl caller m, r⟩ = true := by
    intro m r hm hf
    cases r with
    | error err => simp [ctrlFails] at hf
    | ok u => simp [isSignal, hm]
  simp only [List.forall_mem_append, List.forall_mem_cons] at hctrl
  have htwo : 2 ≤ (beforeSplice (q ++ ⟨.writeCtrl caller m, r⟩ :: ⟨.writeCtrl caller m', r'⟩ :: tr)
      ).countP (isSignal caller sid) := by
    unfold beforeSplice
    rw [List.takeWhile_append_of_pos (fun ev hev => by rw [hq ev hev]; rfl),
      List.takeWhile_cons_of_pos rfl, List.takeWhile_cons_of_pos rfl, List.countP_append,
      List.countP_cons_of_pos (hsig hm hctrl.2.1), List.countP_cons_of_pos (hsig hm' hctrl.2.2.1)]
    omega
  constructor
  · intro hone
    omega
  · intro hall
    exact nomatch hmiss.symm.trans (hall ev (List.mem_append_left _ hev))

theorem rejectConsumer_signals {code : UInt32} {reason : GoString} (hsid : sid ≠ 0) :
    Signals caller sid (rejectConsumer caller .consumer sid code reason) := by
  unfold rejectConsumer writeStreamReject
  simp only [if_neg hsid]
  refine Signals.bind (Prog.Only.bind (only_quiet rfl) fun _ => Prog.only_pure) fun _ r => ?_
  exact signalled_of_signal (q := []) (decide_eq_true rfl) nofun nofun

/-- A frame to another agent, or none. -/
theorem isSignal_of_ne {ac : AgentConn} (hne : ac ≠ caller) (m : Message)
    (r : Except GoString Unit) : isSignal caller sid ⟨.writeCtrl ac m, r⟩ = false := by
  cases r with
  | error err => rfl
  | ok u => simp [isSignal, hne]

theorem quiet_lookupAgent {ac : AgentConn} (hne : ac ≠ caller) (uri : GoString) :
    Quiet caller sid ⟨.lookupAgent uri, some ac⟩ :=
  ⟨rfl, rfl, rfl, decide_eq_false hne⟩

theorem spliceStreams_signals {prov : AgentConn} {o : OpenStream} :
    Signals caller o.streamID (spliceStreams caller prov o) := by
  intro provAC resumeRelays r
  have hready : (Message.streamReady o.streamID resumeRelays).signals o.streamID = true :=
    decide_eq_true rfl
  cases provAC with
  | none =>
    intro n
    refine signalled_of_signal (q := [⟨.lookupAgent prov.uri, none⟩, ⟨.successors, resumeRelays⟩])
      hready ?_ ?_
    · rw [List.forall_mem_cons, List.forall_mem_singleton]
      exact ⟨⟨rfl, rfl, rfl, rfl⟩, rfl, rfl, rfl, rfl⟩
    · rw [List.forall_mem_singleton]
      exact ⟨rfl, rfl⟩
  | some ac =>
    intro r' n
    by_cases hac : ac = caller
    · -- the second signal goes to the caller too
      subst hac
      refine signalled_of_two
        (q := [⟨.lookupAgent prov.uri, some ac⟩, ⟨.successors, resumeRelays⟩])
        ?_ List.mem_cons_self (decide_eq_true rfl) hready hready
      simp [isSplice]
    · refine signalled_of_signal
        (q := [⟨.lookupAgent prov.uri, some ac⟩, ⟨.successors, resumeRelays⟩]) hready ?_ ?_
      · rw [List.forall_mem_cons, List.forall_mem_singleton]
        exact ⟨quiet_lookupAgent hac _, rfl, rfl, rfl, rfl⟩
      · rw [List.forall_mem_cons, List.forall_mem_singleton]
        exact ⟨⟨isSignal_of_ne hac _ _, rfl⟩, rfl, rfl⟩

theorem grantForward_signals {prov : AgentConn} {o : OpenStream} (hsid : o.streamID ≠ 0) :
    Signals caller o.streamID (grantForward caller prov o) := by
  intro provAC
  cases provAC with
  | none =>
    refine Prog.All.imp (rejectConsumer_signals hsid) fun tr _ htr => ?_
    exact (signalled_cons ⟨rfl, rfl, rfl, rfl⟩).mpr htr
  | some ac =>
    intro consumerAlloc providerAlloc fwdEndpoint resumeRelays r
    let q : List EdgeEvent := [⟨.lookupAgent prov.uri, some ac⟩,
      ⟨.allocate caller.uri, consumerAlloc⟩, ⟨.allocate ac.uri, providerAlloc⟩,
      ⟨.forwardEndpoint, fwdEndpoint⟩, ⟨.successors, resumeRelays⟩]
    have hgrant : ∀ my peer, (Message.allocGranted
        ⟨o.streamID, my, peer, fwdEndpoint, resumeRelays⟩).signals o.streamID = true :=
      fun _ _ => decide_eq_true rfl
    cases r with
    | error err =>
      intro _ _
      exact signalled_of_ctrlFails (q := q)
    | ok u =>
      intro r'
      by_cases hac : ac = caller
      · -- both grants go to the caller
        subst hac
        have hq : ∀ ev ∈ q, isSplice ev = false := by simp [q, isSplice]
        cases r' with
        | error err' =>
          intro _ _
          exact signalled_of_ctrlFails (q := q ++ [_])
        | ok u' =>
          intro _ _ _
          exact signalled_of_two hq List.mem_cons_self (decide_eq_true rfl) (hgrant _ _)
            (hgrant _ _)
      · have hq : ∀ ev ∈ q, Quiet caller o.streamID ev := by
          simp only [q, List.forall_mem_cons, List.not_mem_nil, IsEmpty.forall_iff, implies_true,
            and_true]
          exact ⟨quiet_lookupAgent hac _, ⟨rfl, rfl, rfl, rfl⟩, ⟨rfl, rfl, rfl, rfl⟩,
            ⟨rfl, rfl, rfl, rfl⟩, rfl, rfl, rfl, rfl⟩
        cases r' with
        | error err' =>
          intro _ _
          refine signalled_of_signal (hgrant consumerAlloc providerAlloc) hq ?_
          simp only [List.forall_mem_cons]
          exact ⟨⟨isSignal_of_ne hac _ _, rfl⟩, ⟨rfl, rfl⟩, ⟨rfl, rfl⟩, nofun⟩
        | ok u' =>
          intro _ _ _
          refine signalled_of_signal (hgrant consumerAlloc providerAlloc) hq ?_
          simp only [List.forall_mem_cons]
          exact ⟨⟨isSignal_of_ne hac _ _, rfl⟩, ⟨rfl, rfl⟩, ⟨rfl, rfl⟩, ⟨rfl, rfl⟩, nofun⟩

/-! ## The handler -/

theorem openIncoming_quiet {ac : AgentConn} {service method uri : GoString} {streamID : UInt64} :
    (openIncoming ac service method uri streamID).Only (Quiet caller sid) :=
  Prog.Within.only (openIncoming_within (fun _ => quiet_event rfl) (fun _ => quiet_event rfl)
    (fun _ _ => quiet_event rfl) (fun _ => quiet_event rfl))

theorem resolve_quiet {cfg : EdgeConfig} {uri name : GoString} :
    (resolve cfg uri name).Only (Quiet caller sid) :=
  Prog.Within.only (resolve_within (fun _ _ _ _ => quiet_event rfl) (fun _ _ => quiet_event rfl))

/-- `ForwardStream` is quiet where it fails. Where it succeeds the peer has
accepted, and no signal has been written. -/
def ForwardOutcome (caller : AgentConn) (sid : UInt64) (tr : List EdgeEvent) :
    Except ForwardError Unit → Prop
  | .error _ => ∀ ev ∈ tr, Quiet caller sid ev
  | .ok () => (∀ ev ∈ tr, isSignal caller sid ev = false) ∧ ∃ ev ∈ tr, misses caller ev = true

theorem ForwardOutcome.cons {r : Except ForwardError Unit} (hq : Quiet caller sid ev)
    (h : ForwardOutcome caller sid tr r) : ForwardOutcome caller sid (ev :: tr) r := by
  cases r with
  | error err => exact List.forall_mem_cons.mpr ⟨hq, h⟩
  | ok u =>
    obtain ⟨hs, ev', hev', hm⟩ := h
    exact ⟨List.forall_mem_cons.mpr ⟨hq.1, hs⟩, ev', List.mem_cons_of_mem _ hev', hm⟩

theorem ForwardOutcome.perform {o : EdgeOp} {k : o.Ans → Handler (Except ForwardError Unit)}
    (ho : quiet o = true) (hk : ∀ r, (k r).All (ForwardOutcome caller sid)) :
    (perform o >>= k).All (ForwardOutcome caller sid) :=
  fun r => Prog.All.imp (hk r) fun _ _ h =>
    ForwardOutcome.cons (quiet_event ho) h

theorem forwardStream_outcome {target method uri : GoString} :
    (forwardStream target method uri).All (ForwardOutcome caller sid) := by
  have hclose : ∀ err, (do
      perform (.closeStream .peer)
      pure (.error err) : Handler (Except ForwardError Unit)).All (ForwardOutcome caller sid) :=
    fun err => ForwardOutcome.perform rfl fun _ => nofun
  refine ForwardOutcome.perform rfl fun r => ?_
  cases r with
  | error err => exact nofun
  | ok u =>
    refine ForwardOutcome.perform rfl fun r => ?_
    cases r with
    | error err => exact hclose _
    | ok u =>
      intro r
      match r with
      | .ok .streamAccept =>
        refine ⟨?_, _, List.mem_cons_self, rfl⟩
        exact List.forall_mem_singleton.mpr rfl
      | .error err =>
        exact Prog.All.imp (hclose _) fun _ _ h => ForwardOutcome.cons ⟨rfl, rfl, rfl, rfl⟩ h
      | .ok (.streamReject code reason) =>
        exact Prog.All.imp (hclose _) fun _ _ h => ForwardOutcome.cons ⟨rfl, rfl, rfl, rfl⟩ h
      | .ok (.openStream _) | .ok (.forwardStream _) | .ok (.streamResume _)
      | .ok (.migrateToRelay _) | .ok (.other _) =>
        exact Prog.All.imp (hclose _) fun _ _ h => ForwardOutcome.cons ⟨rfl, rfl, rfl, rfl⟩ h

theorem forwardToPeer_signals {o : OpenStream} {remote : Remote} (hsid : o.streamID ≠ 0) :
    Signals caller o.streamID (forwardToPeer caller o remote) := by
  refine Signals.bind (only_quiet rfl) fun r => ?_
  cases r with
  | error err => exact rejectConsumer_signals hsid
  | ok u =>
    have hforward : (forwardStream o.targetService o.method caller.uri).All
        (ForwardOutcome caller o.streamID) := forwardStream_outcome
    refine Prog.all_bind.mpr (Prog.All.imp hforward fun tr r h => ?_)
    cases r with
    | error err =>
      refine Prog.All.imp (Signals.bind (only_quiet rfl) fun _ => rejectConsumer_signals hsid)
        fun tr' _ htr' => ?_
      exact (signalled_append_left h).mpr htr'
    | ok u =>
      obtain ⟨hs, ev, hev, hm⟩ := h
      intro n u
      refine signalled_of_miss ?_ (List.mem_append_left _ hev) hm
      rw [List.forall_mem_append]
      exact ⟨hs, List.forall_mem_cons.mpr ⟨rfl, List.forall_mem_singleton.mpr rfl⟩⟩

theorem awaitAccept_signals {cfg : EdgeConfig} {prov : AgentConn} {o : OpenStream}
    {relayMode : RelayMode} (hsid : o.streamID ≠ 0) :
    Signals caller o.streamID (awaitAccept cfg caller prov o relayMode) := by
  have hsilent : ∀ {r : Except GoString Frame},
      misses caller ⟨.parseFrame (.provider prov), r⟩ = true →
        Signalled caller o.streamID [⟨.parseFrame (.provider prov), r⟩] := fun hm =>
    signalled_of_miss (List.forall_mem_singleton.mpr rfl) List.mem_cons_self hm
  intro r
  match r with
  | .error err => exact hsilent rfl
  | .ok .streamAccept =>
    have hquiet : Quiet caller o.streamID ⟨.parseFrame (.provider prov), .ok .streamAccept⟩ :=
      ⟨rfl, rfl, rfl, rfl⟩
    have hnext : Signals caller o.streamID
        (if relayMode = .forward ∧ cfg.forward = true then grantForward caller prov o
          else spliceStreams caller prov o) := by
      split_ifs
      · exact grantForward_signals hsid
      · exact spliceStreams_signals
    exact Prog.All.imp hnext fun tr _ htr => (signalled_cons hquiet).mpr htr
  | .ok (.streamReject code reason) =>
    refine Prog.All.imp (rejectConsumer_signals hsid) fun tr _ htr => ?_
    exact (signalled_cons ⟨rfl, rfl, rfl, rfl⟩).mpr htr
  | .ok (.openStream _) | .ok (.forwardStream _) | .ok (.streamResume _) | .ok (.migrateToRelay _)
  | .ok (.other _) => exact hsilent rfl

theorem dispatchStream_signals {cfg : EdgeConfig} {prov : AgentConn} {o : OpenStream}
    {p2pMode : P2PMode} {relayMode : RelayMode} (hsid : o.streamID ≠ 0) :
    Signals caller o.streamID (dispatchStream cfg caller prov o p2pMode relayMode) := by
  refine Signals.bind openIncoming_quiet fun r => ?_
  cases r with
  | error err => exact rejectConsumer_signals hsid
  | ok u =>
    refine Signals.defer (Signals.bind (only_quiet rfl) fun recorded => ?_) (only_quiet rfl)
    cases recorded with
    | false => exact rejectConsumer_signals hsid
    | true =>
      refine Signals.defer ?_ (only_quiet rfl)
      split_ifs
      · exact Signals.defer (Signals.bind (only_quiet rfl) fun _ => awaitAccept_signals hsid)
          (only_quiet rfl)
      · exact awaitAccept_signals hsid

theorem routeStream_signals {cfg : EdgeConfig} {o : OpenStream} {p2pMode : P2PMode}
    {relayMode : RelayMode} (hsid : o.streamID ≠ 0) :
    Signals caller o.streamID (routeStream cfg caller o p2pMode relayMode) := by
  refine Signals.bind resolve_quiet fun r => ?_
  match r with
  | .error (.providerRemote remote) =>
    dsimp only
    split_ifs
    · exact rejectConsumer_signals hsid
    · exact forwardToPeer_signals hsid
  | .error .noTenant | .error (.rpcFailed _) | .error .serviceNotFound =>
    exact rejectConsumer_signals hsid
  | .ok prov =>
    dsimp only
    split_ifs
    · refine Signals.bind (only_quiet rfl) fun callee => Signals.bind (only_quiet rfl) fun _ => ?_
      split_ifs
      · exact rejectConsumer_signals hsid
      · exact dispatchStream_signals hsid
    · exact dispatchStream_signals hsid

theorem handleOpenStream_signals {cfg : EdgeConfig} {o : OpenStream} (hsid : o.streamID ≠ 0) :
    Signals caller o.streamID (handleOpenStream cfg caller o) := by
  unfold handleOpenStream
  split_ifs
  · refine Signals.bind (only_quiet rfl) fun dec => Signals.bind (only_quiet rfl) fun _ => ?_
    split_ifs
    · exact rejectConsumer_signals hsid
    · exact routeStream_signals hsid
  · exact routeStream_signals hsid

/-- A stream whose first frame is `o`. -/
theorem handleConsumerStream_signals {cfg : EdgeConfig} {o : OpenStream} (hsid : o.streamID ≠ 0) :
    (handleConsumerStream cfg caller).All (fun tr _ =>
      tr.head? = some ⟨.parseFrame .consumer, .ok (.openStream (some o))⟩ →
        Signalled caller o.streamID tr) := by
  refine handleConsumerStream_all (Prog.All.imp ?_ fun tr _ htr =>
    (signalled_cons (quiet_event rfl)).mpr htr)
  exact Signals.defer (handleOpenStream_signals hsid) (only_quiet rfl)

/-- **One signal for each stream**: where the writes on the caller's control
stream succeed, an `OPEN_STREAM` with a stream id leads to exactly one signal
before bytes are spliced or the handler returns – if and only if none of the
four answers is given. -/
theorem one_signal_iff {cfg : EdgeConfig} {caller : AgentConn} {o : OpenStream}
    {tr : List EdgeEvent} (hpath : Prog.Path (handleConsumerStream cfg caller) tr ())
    (hopen : tr.head? = some ⟨.parseFrame .consumer, .ok (.openStream (some o))⟩)
    (hsid : o.streamID ≠ 0) (hctrl : ∀ ev ∈ tr, ctrlFails caller ev = false) :
    (beforeSplice tr).countP (isSignal caller o.streamID) = 1
      ↔ ∀ ev ∈ tr, misses caller ev = false :=
  Prog.all_iff.mp (handleConsumerStream_signals hsid) tr () hpath hopen hctrl

/-- A stream of `agentC` that the provider's relay accepts: the bytes are
spliced, and the agent has been told nothing. -/
theorem forwarded_stream_unsignalled :
    ∃ tr, Prog.Path (handleConsumerStream edgeR1 connC) tr ()
      ∧ tr.head? = some ⟨.parseFrame .consumer, .ok (.openStream (some openPayments))⟩
      ∧ openPayments.streamID ≠ 0 ∧ (∀ ev ∈ tr, ctrlFails connC ev = false)
      ∧ (∃ ev ∈ tr, isSplice ev = true)
      ∧ tr.countP (isSignal connC openPayments.streamID) = 0
      ∧ (beforeSplice tr).countP (isSignal connC openPayments.streamID) ≠ 1 := by
  have hpath := Prog.path_run (succeeding acceptedBy (fun _ _ _ => ⟨.allow, [], .allowed, .splice⟩)
    [⟨agentP.val, go "outrelay://acme/relay/r2", go "r2:7443"⟩] connP)
    (handleConsumerStream edgeR1 connC)
  exact ⟨_, hpath, rfl, by decide, by decide, by decide, by decide, by decide⟩

/-- The same stream, where the provider is connected to the same relay. -/
theorem spliced_stream_signalled :
    ∃ tr, Prog.Path (handleConsumerStream edgeR1 connC) tr ()
      ∧ (∃ ev ∈ tr, isSplice ev = true)
      ∧ (beforeSplice tr).countP (isSignal connC openPayments.streamID) = 1 := by
  have hpath := Prog.path_run (succeeding acceptedBy (fun _ _ _ => ⟨.allow, [], .allowed, .splice⟩)
    [⟨agentP.val, relayR1.relayID, []⟩] connP) (handleConsumerStream edgeR1 connC)
  refine ⟨_, hpath, by decide, ?_⟩
  exact (one_signal_iff (o := openPayments) hpath rfl (by decide) (by decide)).mpr (by decide)

end Handler
