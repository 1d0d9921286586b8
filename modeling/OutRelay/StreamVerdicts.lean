import OutRelay.StreamContacts

/-!
# What an agent is told of its stream

A stream that an agent opens comes to one of two ends. It is served: joined with the
provider's stream or with that of a peer relay, or left to the forwarding plane. Or
it is rejected, with a code and a reason, on the stream itself and once more on the
agent's control stream. The handler has a dozen places where it decides, and an agent
acts on what it is told: a 404 is final, a 502 is retried, a 409 asks for another id.

`Verdict` lists the decisions with the grounds for each. Every decision of the handler
is on the list, and nothing was decided before it (`handleConsumerStream_verdict`): a
stream is rejected at most once, a stream that is served is not rejected and had been
accepted, and the code and the reason name what the policy, the controller, the
registry, the provider or the peer has answered. The control stream only repeats what
the data stream was told. The handler of a forwarded stream keeps to the same with its
peer (`handleForwardedStream_verdict`).
-/

namespace Handler

/-- The operations that decide on a stream. -/
def isVerdict : EdgeOp → Bool
  | .writeFrame .consumer (.streamReject _ _ _) => true
  | .writeFrame .peer (.streamReject _ _ _) => true
  | .writeFrame .peer .streamAccept => true
  | .writeCtrl _ (.streamReject _ _ _) => true
  | .splice _ _ | .drain _ _ => true
  | _ => false

/-- **The decisions of a path.** -/
def verdicts (tr : List EdgeEvent) : List EdgeOp :=
  (tr.map Interface.Event.op).filter isVerdict

/-- A procedure that decides nothing. -/
abbrev Undecided {α : Type} (p : Handler α) : Prop := p.Within fun op => isVerdict op = false

variable {cfg : EdgeConfig} {caller prov : AgentConn} {o : OpenStream} {m : IncomingStream}
  {before tr : List EdgeEvent} {α β : Type}

theorem verdicts_append : verdicts (before ++ tr) = verdicts before ++ verdicts tr := by
  unfold verdicts
  rw [List.map_append, List.filter_append]

theorem verdicts_concat {op : EdgeOp} {r : op.Ans} (hop : isVerdict op = false) :
    verdicts (before ++ [⟨op, r⟩]) = verdicts before := by
  have hnone : verdicts [(⟨op, r⟩ : EdgeEvent)] = [] :=
    List.filter_cons_of_neg (Bool.eq_false_iff.mp hop)
  rw [verdicts_append, hnone, List.append_nil]

/-! ## The rules -/

/-- **The decisions of `p` are in `V`**, each with the events before it, the first of
which are `before`. -/
def Judged (V : List EdgeEvent → EdgeOp → Prop) (before : List EdgeEvent) (p : Handler α) : Prop :=
  p.Sites fun tr op => isVerdict op = true → V (before ++ tr) op

section Rules

variable {V : List EdgeEvent → EdgeOp → Prop} {p : Handler α} {f : α → Handler β}

theorem judged_pure {a : α} : Judged V before (pure a : Handler α) := Prog.sites_pure

theorem judged_of_undecided (hp : Undecided p) : Judged V before p :=
  Prog.Sites.imp hp fun _ _ hq hv => by cases hq.symm.trans hv

theorem Judged.bind (hp : Undecided p)
    (hf : p.All fun tr a => verdicts tr = [] → Judged V (before ++ tr) (f a)) :
    Judged V before (p >>= f) := by
  refine Prog.sites_bind.mpr ⟨judged_of_undecided hp, Prog.All.imp
    (Prog.All.and hf (Prog.Within.filter_eq_nil hp)) fun tr a h => ?_⟩
  refine Prog.Sites.imp (h.1 h.2) fun tr' op hop hv => ?_
  rw [← List.append_assoc]
  exact hop hv

theorem Judged.bind_done (hp : Judged V before p) (hf : ∀ a, Undecided (f a)) :
    Judged V before (p >>= f) :=
  Prog.sites_bind.mpr ⟨hp, Prog.all_iff.mpr fun _ a _ =>
    Prog.Sites.imp (hf a) fun _ _ hq hv => by cases hq.symm.trans hv⟩

/-- The rule for an operation that decides nothing. -/
theorem Judged.call {op : EdgeOp} {k : op.Ans → Handler β} (hop : isVerdict op = false)
    (hk : ∀ r, verdicts (before ++ [⟨op, r⟩]) = verdicts before →
      Judged V (before ++ [⟨op, r⟩]) (k r)) : Judged V before (perform op >>= k) := by
  refine Prog.sites_call.mpr ⟨fun hv => (Bool.eq_false_iff.mp hop hv).elim, fun r => ?_⟩
  refine Prog.Sites.imp (hk r (verdicts_concat hop)) fun tr op' h hv => ?_
  rw [← List.singleton_append, ← List.append_assoc]
  exact h hv

/-- The rule for a decision. -/
theorem Judged.decide {op : EdgeOp} {k : op.Ans → Handler β} (hop : V before op)
    (hk : ∀ r, Judged V (before ++ [⟨op, r⟩]) (k r)) : Judged V before (perform op >>= k) := by
  refine Prog.sites_call.mpr ⟨fun _ => (List.append_nil before).symm ▸ hop, fun r => ?_⟩
  refine Prog.Sites.imp (hk r) fun tr op' h hv => ?_
  rw [← List.singleton_append, ← List.append_assoc]
  exact h hv

theorem judged_perform {op : EdgeOp} (hop : V before op) : Judged V before (perform op) :=
  Prog.sites_perform.mpr fun _ => (List.append_nil before).symm ▸ hop

end Rules

/-! ## What `Resolve` finds -/

/-- The controller's answer for the service `name`, to a caller `uri`. -/
def Listed (cfg : EdgeConfig) (uri name : GoString) (tr : List EdgeEvent)
    (rows : List ProviderRow) : Prop :=
  ⟨.resolveRPC (cfg.tenantOf uri) name cfg.region, .ok rows⟩ ∈ tr

/-- **The service was not found**: the caller has no tenant, the controller failed, it
lists no provider, or the first it lists is said to be here and is not connected. -/
inductive NotFound (cfg : EdgeConfig) (uri name : GoString) (tr : List EdgeEvent) : Prop
  | noTenant (h : cfg.tenantOf uri = [])
  | failed (err : GoString)
      (h : ⟨.resolveRPC (cfg.tenantOf uri) name cfg.region, .error err⟩ ∈ tr)
  | unlisted (h : Listed cfg uri name tr [])
  | gone (row : ProviderRow) (rows : List ProviderRow) (h : Listed cfg uri name tr (row :: rows))
      (hhere : row.relayID = cfg.relayID) (hgone : ⟨.localAgent row.agentURI, none⟩ ∈ tr)

/-- The first provider that the controller lists is connected to another relay. -/
def Elsewhere (cfg : EdgeConfig) (uri name : GoString) (tr : List EdgeEvent) (remote : Remote) :
    Prop :=
  ∃ row rows, Listed cfg uri name tr (row :: rows) ∧ row.relayID ≠ cfg.relayID
    ∧ remote = ⟨row.relayID, row.relayEndpoint, row.agentURI⟩

/-- The first provider that the controller lists is connected to this relay, by
`prov`. -/
def Here (cfg : EdgeConfig) (uri name : GoString) (tr : List EdgeEvent) (prov : AgentConn) : Prop :=
  ∃ row rows, Listed cfg uri name tr (row :: rows) ∧ row.relayID = cfg.relayID
    ∧ ⟨.localAgent row.agentURI, some prov⟩ ∈ tr

/-- What an answer of `resolve` rests on. -/
def Found (cfg : EdgeConfig) (uri name : GoString) (tr : List EdgeEvent) :
    Except ResolveError AgentConn → Prop
  | .ok prov => Here cfg uri name tr prov
  | .error (.providerRemote remote) => Elsewhere cfg uri name tr remote
  | .error _ => NotFound cfg uri name tr

section Mono

variable {uri name : GoString} {tr' : List EdgeEvent} (hsub : tr ⊆ tr')

include hsub

theorem NotFound.mono (h : NotFound cfg uri name tr) : NotFound cfg uri name tr' := by
  cases h with
  | noTenant h => exact .noTenant h
  | failed err h => exact .failed err (hsub h)
  | unlisted h => exact .unlisted (hsub h)
  | gone row rows h hhere hgone => exact .gone row rows (hsub h) hhere (hsub hgone)

theorem Elsewhere.mono {remote : Remote} (h : Elsewhere cfg uri name tr remote) :
    Elsewhere cfg uri name tr' remote := by
  obtain ⟨row, rows, hlist, hrow⟩ := h
  exact ⟨row, rows, hsub hlist, hrow⟩

theorem Here.mono (h : Here cfg uri name tr prov) : Here cfg uri name tr' prov := by
  obtain ⟨row, rows, hlist, hhere, hagent⟩ := h
  exact ⟨row, rows, hsub hlist, hhere, hsub hagent⟩

end Mono

theorem resolve_found {uri name : GoString} :
    (resolve cfg uri name).All fun tr r => Found cfg uri name tr r := by
  unfold resolve
  split_ifs with htenant
  · exact .noTenant htenant
  · refine Prog.all_call.mpr fun r => ?_
    match r with
    | .error err => exact NotFound.failed err List.mem_cons_self
    | .ok [] => exact NotFound.unlisted List.mem_cons_self
    | .ok (row :: rows) =>
      dsimp only
      split_ifs with hhere
      · exact ⟨row, rows, List.mem_cons_self, hhere, rfl⟩
      · refine Prog.all_call.mpr fun ac => ?_
        cases ac with
        | none =>
          exact NotFound.gone row rows List.mem_cons_self (not_not.mp hhere) (by simp)
        | some ac => exact ⟨row, rows, List.mem_cons_self, not_not.mp hhere, by simp⟩

theorem resolve_undecided {uri name : GoString} : Undecided (resolve cfg uri name) :=
  resolve_within (fun _ _ _ => rfl) fun _ => rfl

/-! ## Why a stream is rejected -/

/-- A provider's stream could not be opened, or `INCOMING_STREAM` could not be
written. -/
def OpenFailed (prov : AgentConn) (tr : List EdgeEvent) : Prop :=
  (∃ err, ⟨.openAgentStream prov, .error err⟩ ∈ tr)
    ∨ ∃ m err, ⟨.writeFrame (.provider prov) (.incomingStream m), .error err⟩ ∈ tr

/-- The peer relay did not accept the stream: there is no stream to it, the request
could not be written, or what was read is not an acceptance. -/
def NotAccepted (tr : List EdgeEvent) : Prop :=
  (∃ err, ⟨.openPeerStream, .error err⟩ ∈ tr)
    ∨ (∃ m err, ⟨.writeFrame .peer (.forwardStream m), .error err⟩ ∈ tr)
    ∨ ∃ r, ⟨.parseFrame .peer, r⟩ ∈ tr ∧ r ≠ .ok .streamAccept

/-- **The codes and reasons of a rejection, with what they stand for.** -/
inductive Cause (cfg : EdgeConfig) (caller : AgentConn) (o : OpenStream) (tr : List EdgeEvent) :
    UInt32 → GoString → Prop
  | denied (dec : Result) (h : ⟨.evaluate caller.uri o.targetService o.method, dec⟩ ∈ tr)
      (hdeny : dec.decision = .deny) : Cause cfg caller o tr 403 (go "denied: " ++ dec.reason)
  | deniedByCallee (prov : AgentConn) (dec : Result)
      (hfound : Here cfg caller.uri o.targetService tr prov)
      (h : ⟨.evaluate prov.uri caller.uri o.method, dec⟩ ∈ tr) (hdeny : dec.decision = .deny) :
      Cause cfg caller o tr 403 (go "denied (callee): " ++ dec.reason)
  | notFound (h : NotFound cfg caller.uri o.targetService tr) :
      Cause cfg caller o tr 404 (go "service not found")
  | collision (prov : AgentConn) (hfound : Here cfg caller.uri o.targetService tr prov)
      (h : ⟨.recordPair o.streamID ⟨caller.uri, prov.uri⟩, false⟩ ∈ tr) :
      Cause cfg caller o tr 409 (go "stream id collision")
  | noForwarding (remote : Remote) (h : Elsewhere cfg caller.uri o.targetService tr remote)
      (hno : cfg.pool = false ∨ remote.endpoint = []) :
      Cause cfg caller o tr 502 (go "inter-relay forwarding unavailable")
  | unreachable (remote : Remote) (h : Elsewhere cfg caller.uri o.targetService tr remote)
      (err : GoString) (hget : ⟨.poolGet remote.relayID remote.endpoint, .error err⟩ ∈ tr) :
      Cause cfg caller o tr 502 (go "peer relay unreachable")
  | notForwarded (h : NotAccepted tr) : Cause cfg caller o tr 502 (go "peer relay forward failed")
  | notOpened (prov : AgentConn) (hfound : Here cfg caller.uri o.targetService tr prov)
      (h : OpenFailed prov tr) : Cause cfg caller o tr 502 (go "provider stream open failed")
  | noControl (prov : AgentConn) (hfound : Here cfg caller.uri o.targetService tr prov)
      (h : ⟨.lookupAgent prov.uri, none⟩ ∈ tr) :
      Cause cfg caller o tr 502 (go "forward: provider control channel unavailable")
  | refused (prov : AgentConn) (code : UInt32) (reason : GoString)
      (hfound : Here cfg caller.uri o.targetService tr prov)
      (h : ⟨.parseFrame (.provider prov), .ok (.streamReject code reason)⟩ ∈ tr) :
      Cause cfg caller o tr 503 (go "provider rejected")

/-- **The decisions on an agent's stream, with their grounds.** -/
inductive Verdict (cfg : EdgeConfig) (caller : AgentConn) (o : OpenStream) (tr : List EdgeEvent) :
    EdgeOp → Prop
  | reject {code : UInt32} {reason : GoString} (hfirst : verdicts tr = [])
      (hcause : Cause cfg caller o tr code reason) :
      Verdict cfg caller o tr (.writeFrame .consumer (.streamReject code reason 0))
  | mirror {code : UInt32} {reason : GoString} (hid : o.streamID ≠ 0)
      (hrejected : verdicts tr = [.writeFrame .consumer (.streamReject code reason 0)]) :
      Verdict cfg caller o tr (.writeCtrl caller (.streamReject code reason o.streamID))
  | splice (prov : AgentConn) (hfirst : verdicts tr = [])
      (hfound : Here cfg caller.uri o.targetService tr prov)
      (haccept : ⟨.parseFrame (.provider prov), .ok .streamAccept⟩ ∈ tr) :
      Verdict cfg caller o tr (.splice .consumer (.provider prov))
  | forward (prov : AgentConn) (hfirst : verdicts tr = [])
      (hfound : Here cfg caller.uri o.targetService tr prov)
      (haccept : ⟨.parseFrame (.provider prov), .ok .streamAccept⟩ ∈ tr) :
      Verdict cfg caller o tr (.drain .consumer (.provider prov))
  | join (hfirst : verdicts tr = []) (haccept : ⟨.parseFrame .peer, .ok .streamAccept⟩ ∈ tr) :
      Verdict cfg caller o tr (.splice .consumer .peer)

theorem rejectConsumer_judged {code : UInt32} {reason : GoString} (hfirst : verdicts before = [])
    (hcause : Cause cfg caller o before code reason) :
    Judged (Verdict cfg caller o) before
      (rejectConsumer caller .consumer o.streamID code reason) := by
  refine Judged.decide (.reject hfirst hcause) fun r => ?_
  dsimp only
  split_ifs with hid
  · exact judged_pure
  · refine Judged.decide (.mirror hid ?_) fun _ => judged_pure
    rw [verdicts_append, hfirst]
    rfl

/-! ## The provider's answer -/

theorem grantForward_judged (hfirst : verdicts before = [])
    (hfound : Here cfg caller.uri o.targetService before prov)
    (haccept : ⟨.parseFrame (.provider prov), .ok .streamAccept⟩ ∈ before) :
    Judged (Verdict cfg caller o) before (grantForward caller prov o) := by
  refine Judged.call rfl fun provAC hv => ?_
  cases provAC with
  | none =>
    exact rejectConsumer_judged (hv.trans hfirst)
      (.noControl prov (hfound.mono (List.subset_append_left _ _)) (by simp))
  | some provAC =>
    refine Judged.call rfl fun _ hv₁ => Judged.call rfl fun _ hv₂ => ?_
    refine Judged.bind_done (Judged.bind_done ?_ fun _ => Prog.within_perform rfl)
      fun _ => Prog.within_perform rfl
    refine Judged.call rfl fun _ hv₃ => Judged.call rfl fun _ hv₄ => Judged.call rfl fun r hv₅ => ?_
    cases r with
    | error err => exact judged_pure
    | ok u =>
      refine Judged.call rfl fun r hv₆ => ?_
      cases r with
      | error err => exact judged_pure
      | ok u =>
        refine judged_perform (.forward prov ?_ (hfound.mono fun _ hev => by simp [hev])
          (by simp [haccept]))
        exact hv₆.trans (hv₅.trans (hv₄.trans (hv₃.trans (hv₂.trans
          (hv₁.trans (hv.trans hfirst))))))

theorem spliceStreams_judged (hfirst : verdicts before = [])
    (hfound : Here cfg caller.uri o.targetService before prov)
    (haccept : ⟨.parseFrame (.provider prov), .ok .streamAccept⟩ ∈ before) :
    Judged (Verdict cfg caller o) before (spliceStreams caller prov o) := by
  refine Judged.call rfl fun provAC hv => Judged.call rfl fun resumeRelays hv₁ =>
    Judged.call rfl fun _ hv₂ => ?_
  have hnotify : Undecided (notify provAC (.streamReady o.streamID resumeRelays)) := by
    cases provAC with
    | none => exact Prog.within_pure
    | some ac => exact Prog.Within.bind (Prog.within_perform rfl) fun _ => Prog.within_pure
  refine Judged.bind hnotify (Prog.all_iff.mpr fun tr _ _ htr => ?_)
  refine Judged.decide (.splice prov ?_ (hfound.mono fun _ hev => by simp [hev])
    (by simp [haccept])) fun _ => judged_pure
  rw [verdicts_append, htr, List.append_nil]
  exact hv₂.trans (hv₁.trans (hv.trans hfirst))

theorem awaitAccept_judged {relayMode : RelayMode} (hfirst : verdicts before = [])
    (hfound : Here cfg caller.uri o.targetService before prov) :
    Judged (Verdict cfg caller o) before (awaitAccept cfg caller prov o relayMode) := by
  refine Judged.call rfl fun r hv => ?_
  have hfound := fun ev => hfound.mono (List.subset_append_left before [ev])
  match r with
  | .ok .streamAccept =>
    dsimp only
    split_ifs
    · exact grantForward_judged (hv.trans hfirst) (hfound _) (by simp)
    · exact spliceStreams_judged (hv.trans hfirst) (hfound _) (by simp)
  | .ok (.streamReject code reason) =>
    exact rejectConsumer_judged (hv.trans hfirst)
      (.refused prov code reason (hfound _) (by simp))
  | .error err | .ok (.openStream _) | .ok (.forwardStream _) | .ok (.streamResume _)
  | .ok (.migrateToRelay _) | .ok (.other _) => exact judged_pure

/-- What an answer of `openIncoming` rests on. -/
theorem openIncoming_failed {service method uri : GoString} {streamID : UInt64} {err : GoString} :
    (openIncoming prov service method uri streamID).All fun tr r =>
      r = .error err → OpenFailed prov tr := by
  refine Prog.all_call.mpr fun r => ?_
  cases r with
  | error err => exact fun _ => Or.inl ⟨err, List.mem_cons_self⟩
  | ok u =>
    refine Prog.all_call.mpr fun resumeRelays => Prog.all_call.mpr fun r => ?_
    cases r with
    | error err =>
      exact fun _ _ => Or.inr ⟨_, err, .tail _ (.tail _ (.head _))⟩
    | ok u => exact nofun

theorem OpenFailed.mono {tr' : List EdgeEvent} (h : OpenFailed prov tr) (hsub : tr ⊆ tr') :
    OpenFailed prov tr' :=
  h.imp (fun ⟨err, h⟩ => ⟨err, hsub h⟩) fun ⟨m, err, h⟩ => ⟨m, err, hsub h⟩

theorem openIncoming_undecided {service method uri : GoString} {streamID : UInt64} :
    Undecided (openIncoming prov service method uri streamID) :=
  openIncoming_within rfl rfl (fun _ => rfl) rfl

theorem dispatchStream_judged {p2pMode : P2PMode} {relayMode : RelayMode}
    (hfirst : verdicts before = []) (hfound : Here cfg caller.uri o.targetService before prov) :
    Judged (Verdict cfg caller o) before
      (dispatchStream cfg caller prov o p2pMode relayMode) := by
  rw [dispatchStream_eq]
  refine Judged.bind openIncoming_undecided (Prog.all_iff.mpr fun tr r hpath htr => ?_)
  have hopened : verdicts (before ++ tr) = [] := by rw [verdicts_append, hfirst, htr]; rfl
  have hfound : Here cfg caller.uri o.targetService (before ++ tr) prov :=
    hfound.mono (List.subset_append_left _ _)
  cases r with
  | error err =>
    rw [serveOpened]
    have hfailed := Prog.all_iff.mp openIncoming_failed tr _ hpath rfl
    exact rejectConsumer_judged hopened (.notOpened prov hfound
      (hfailed.mono (List.subset_append_right _ _)))
  | ok u =>
    rw [serveOpened]
    refine Judged.bind_done (Judged.call rfl fun recorded hv => ?_) fun _ =>
      Prog.within_perform rfl
    have hfound := fun ev => hfound.mono (List.subset_append_left (before ++ tr) [ev])
    cases recorded with
    | false =>
      rw [if_neg Bool.false_ne_true]
      exact rejectConsumer_judged (hv.trans hopened) (.collision prov (hfound _) (by simp))
    | true =>
      refine Judged.bind_done ?_ fun _ => Prog.within_perform rfl
      split_ifs
      · refine Judged.bind_done (Judged.call rfl fun _ hv₁ => ?_) fun _ => Prog.within_perform rfl
        exact awaitAccept_judged (hv₁.trans (hv.trans hopened))
          ((hfound _).mono (List.subset_append_left _ _))
      · exact awaitAccept_judged (hv.trans hopened) (hfound _)

/-! ## The peer's answer -/

/-- What an answer of `forwardStream` rests on. -/
def Asked (tr : List EdgeEvent) : Except ForwardError Unit → Prop
  | .ok () => ⟨.parseFrame .peer, .ok .streamAccept⟩ ∈ tr
  | .error _ => NotAccepted tr

theorem forwardStream_asked {target method uri : GoString} :
    (forwardStream target method uri).All Asked := by
  refine Prog.all_call.mpr fun r => ?_
  cases r with
  | error err => exact Or.inl ⟨err, List.mem_cons_self⟩
  | ok u =>
    refine Prog.all_call.mpr fun r => ?_
    cases r with
    | error err => exact fun _ => Or.inr (Or.inl ⟨_, err, .tail _ (.head _)⟩)
    | ok u =>
      refine Prog.all_call.mpr fun r => ?_
      match r with
      | .ok .streamAccept => exact List.Mem.tail _ (.tail _ (.head _))
      | .error err | .ok (.streamReject _ _) | .ok (.openStream _) | .ok (.forwardStream _)
      | .ok (.streamResume _) | .ok (.migrateToRelay _) | .ok (.other _) =>
        exact fun _ => Or.inr (Or.inr ⟨_, .tail _ (.tail _ (.head _)), nofun⟩)

theorem NotAccepted.mono {tr' : List EdgeEvent} (h : NotAccepted tr) (hsub : tr ⊆ tr') :
    NotAccepted tr' := by
  rcases h with ⟨err, h⟩ | ⟨m, err, h⟩ | ⟨r, h, hne⟩
  · exact Or.inl ⟨err, hsub h⟩
  · exact Or.inr (Or.inl ⟨m, err, hsub h⟩)
  · exact Or.inr (Or.inr ⟨r, hsub h, hne⟩)

theorem forwardToPeer_judged {remote : Remote} (hfirst : verdicts before = [])
    (hremote : Elsewhere cfg caller.uri o.targetService before remote) :
    Judged (Verdict cfg caller o) before (forwardToPeer caller o remote) := by
  refine Judged.call rfl fun r hv => ?_
  cases r with
  | error err =>
    exact rejectConsumer_judged (hv.trans hfirst) (.unreachable remote
      (hremote.mono (List.subset_append_left _ _)) err (by simp))
  | ok u =>
    refine Judged.bind (forwardStream_within rfl (fun _ => rfl) rfl rfl)
      (Prog.All.imp forwardStream_asked fun tr r hasked htr => ?_)
    have hopen : verdicts (before ++ [⟨.poolGet remote.relayID remote.endpoint, .ok u⟩] ++ tr)
        = [] := by
      rw [verdicts_append, htr, List.append_nil]
      exact hv.trans hfirst
    cases r with
    | error err =>
      refine Judged.call rfl fun _ hv₁ => rejectConsumer_judged (hv₁.trans hopen)
        (.notForwarded (hasked.mono fun ev hev => ?_))
      exact List.mem_append_left _ (List.mem_append_right _ hev)
    | ok u =>
      refine Judged.bind_done (Judged.decide (.join hopen ?_) fun _ => judged_pure) fun _ =>
        Prog.within_perform rfl
      exact List.mem_append_right _ hasked

/-! ## From the request on -/

theorem routeStream_judged {p2pMode : P2PMode} {relayMode : RelayMode}
    (hfirst : verdicts before = []) :
    Judged (Verdict cfg caller o) before (routeStream cfg caller o p2pMode relayMode) := by
  refine Judged.bind resolve_undecided (Prog.All.imp resolve_found fun tr r hfound htr => ?_)
  have hopen : verdicts (before ++ tr) = [] := by
    rw [verdicts_append, hfirst, htr]
    rfl
  have hsub : tr ⊆ before ++ tr := List.subset_append_right _ _
  match r with
  | .error (.providerRemote remote) =>
    dsimp only
    split_ifs with hno
    · exact rejectConsumer_judged hopen (.noForwarding remote (Elsewhere.mono hsub hfound) hno)
    · exact forwardToPeer_judged hopen (Elsewhere.mono hsub hfound)
  | .error .noTenant | .error (.rpcFailed _) | .error .serviceNotFound =>
    exact rejectConsumer_judged hopen (.notFound (NotFound.mono hsub hfound))
  | .ok prov =>
    have hhere : Here cfg caller.uri o.targetService (before ++ tr) prov := Here.mono hsub hfound
    dsimp only
    split_ifs
    · refine Judged.call rfl fun callee hv => Judged.call rfl fun _ hv₁ => ?_
      have hhere' : ∀ ev ev', Here cfg caller.uri o.targetService (before ++ tr ++ [ev] ++ [ev'])
          prov := fun _ _ => hhere.mono fun _ hev =>
        List.mem_append_left _ (List.mem_append_left _ hev)
      have hopen' := hv₁.trans (hv.trans hopen)
      split_ifs with hdeny
      · exact rejectConsumer_judged hopen'
          (.deniedByCallee prov callee (hhere' _ _) (by simp) hdeny)
      · exact dispatchStream_judged hopen' (hhere' _ _)
    · exact dispatchStream_judged hopen hhere

theorem handleOpenStream_judged (hfirst : verdicts before = []) :
    Judged (Verdict cfg caller o) before (handleOpenStream cfg caller o) := by
  unfold handleOpenStream
  split_ifs
  · refine Judged.call rfl fun dec hv => Judged.call rfl fun _ hv₁ => ?_
    have hopen := hv₁.trans (hv.trans hfirst)
    split_ifs with hdeny
    · exact rejectConsumer_judged hopen (.denied dec (by simp) hdeny)
    · exact routeStream_judged hopen
  · exact routeStream_judged hfirst

/-- A decision on an agent's stream: the first event is the `OPEN_STREAM` that it is
about. -/
def ConsumerVerdict (cfg : EdgeConfig) (caller : AgentConn) (tr : List EdgeEvent) (op : EdgeOp) :
    Prop :=
  ∃ o, tr.head? = some ⟨.parseFrame .consumer, .ok (.openStream (some o))⟩
    ∧ Verdict cfg caller o tr op

/-- **What an agent is told of its stream has its grounds, and is told once.** Every
decision of the handler is about the `OPEN_STREAM` that it has read first, is the first
on its path or repeats it on the control stream, and rests on what has been answered
before. -/
theorem handleConsumerStream_verdict :
    (handleConsumerStream cfg caller).Sites fun tr op => isVerdict op = true →
      ConsumerVerdict cfg caller tr op := by
  suffices h : Judged (ConsumerVerdict cfg caller) [] (handleConsumerStream cfg caller) from h
  refine Judged.bind_done (Judged.call rfl fun r hv => ?_) fun _ => Prog.within_perform rfl
  match r with
  | .ok (.openStream (some o)) =>
    refine Prog.Sites.imp (handleOpenStream_judged hv) fun tr op h hop => ?_
    exact ⟨o, rfl, h hop⟩
  | .ok (.streamResume _) | .ok (.migrateToRelay _) => exact Prog.sites_perform.mpr nofun
  | .error err | .ok (.openStream none) | .ok (.forwardStream _) | .ok .streamAccept
  | .ok (.streamReject _ _) | .ok (.other _) => exact judged_pure

/-! ## Forwarded streams -/

/-- **The codes and reasons of a rejection between relays.** -/
inductive PeerCause (cfg : EdgeConfig) (m : IncomingStream) (tr : List EdgeEvent) :
    UInt32 → GoString → Prop
  | notFound (h : NotFound cfg m.sourceAgentURI m.targetService tr) :
      PeerCause cfg m tr 503 (go "no local provider for forwarded stream")
  | elsewhere (remote : Remote) (h : Elsewhere cfg m.sourceAgentURI m.targetService tr remote) :
      PeerCause cfg m tr 503 (go "no local provider for forwarded stream")
  | notOpened (prov : AgentConn) (hfound : Here cfg m.sourceAgentURI m.targetService tr prov)
      (h : OpenFailed prov tr) : PeerCause cfg m tr 502 (go "provider open failed")
  | refused (prov : AgentConn) (r : Except GoString Frame)
      (hfound : Here cfg m.sourceAgentURI m.targetService tr prov)
      (h : ⟨.parseFrame (.provider prov), r⟩ ∈ tr) (hne : r ≠ .ok .streamAccept) :
      PeerCause cfg m tr 503 (go "provider rejected")

/-- **The decisions on a forwarded stream, with their grounds.** -/
inductive PeerVerdict (cfg : EdgeConfig) (m : IncomingStream) (tr : List EdgeEvent) :
    EdgeOp → Prop
  | reject {code : UInt32} {reason : GoString} (hfirst : verdicts tr = [])
      (hcause : PeerCause cfg m tr code reason) :
      PeerVerdict cfg m tr (.writeFrame .peer (.streamReject code reason 0))
  | accept (prov : AgentConn) (hfirst : verdicts tr = [])
      (hfound : Here cfg m.sourceAgentURI m.targetService tr prov)
      (haccept : ⟨.parseFrame (.provider prov), .ok .streamAccept⟩ ∈ tr) :
      PeerVerdict cfg m tr (.writeFrame .peer .streamAccept)
  | splice (prov : AgentConn) (htold : verdicts tr = [.writeFrame .peer .streamAccept])
      (hwritten : ⟨.writeFrame .peer .streamAccept, .ok ()⟩ ∈ tr)
      (hfound : Here cfg m.sourceAgentURI m.targetService tr prov)
      (haccept : ⟨.parseFrame (.provider prov), .ok .streamAccept⟩ ∈ tr) :
      PeerVerdict cfg m tr (.splice .peer (.provider prov))

theorem writeStreamReject_judged {code : UInt32} {reason : GoString}
    (hfirst : verdicts before = []) (hcause : PeerCause cfg m before code reason) :
    Judged (PeerVerdict cfg m) before (writeStreamReject .peer code reason) :=
  Judged.decide (.reject hfirst hcause) fun _ => judged_pure

theorem answerPeer_judged (hfirst : verdicts before = [])
    (hfound : Here cfg m.sourceAgentURI m.targetService before prov) :
    Judged (PeerVerdict cfg m) before (answerPeer prov) := by
  refine Judged.call rfl fun r hv => ?_
  have hfound := fun ev => hfound.mono (List.subset_append_left before [ev])
  match r with
  | .ok .streamAccept =>
    refine Judged.decide (.accept prov (hv.trans hfirst) (hfound _) (by simp)) fun r => ?_
    cases r with
    | error err => exact judged_pure
    | ok u =>
      refine Judged.decide (.splice prov ?_ (by simp)
        ((hfound _).mono (List.subset_append_left _ _)) (by simp)) fun _ => judged_pure
      rw [verdicts_append, hv, hfirst]
      rfl
  | .error err | .ok (.streamReject _ _) | .ok (.openStream _) | .ok (.forwardStream _)
  | .ok (.streamResume _) | .ok (.migrateToRelay _) | .ok (.other _) =>
    exact writeStreamReject_judged (hv.trans hfirst)
      (.refused prov _ (hfound _) (List.mem_append_right _ (.head _)) nofun)

theorem dispatchForwarded_judged (hfirst : verdicts before = []) :
    Judged (PeerVerdict cfg m) before (dispatchForwarded cfg m) := by
  refine Judged.bind resolve_undecided (Prog.All.imp resolve_found fun tr r hfound htr => ?_)
  have hopen : verdicts (before ++ tr) = [] := by
    rw [verdicts_append, hfirst, htr]
    rfl
  have hsub : tr ⊆ before ++ tr := List.subset_append_right _ _
  match r with
  | .error (.providerRemote remote) =>
    exact writeStreamReject_judged hopen (.elsewhere remote (Elsewhere.mono hsub hfound))
  | .error .noTenant | .error (.rpcFailed _) | .error .serviceNotFound =>
    exact writeStreamReject_judged hopen (.notFound (NotFound.mono hsub hfound))
  | .ok prov =>
    refine Judged.bind openIncoming_undecided (Prog.all_iff.mpr fun tr' r hpath htr' => ?_)
    have hopen' : verdicts (before ++ tr ++ tr') = [] := by
      rw [verdicts_append, hopen, htr']
      rfl
    have hhere : Here cfg m.sourceAgentURI m.targetService (before ++ tr ++ tr') prov :=
      Here.mono (fun _ hev => List.mem_append_left _ (hsub hev)) hfound
    cases r with
    | error err =>
      have hfailed := Prog.all_iff.mp openIncoming_failed tr' _ hpath rfl
      exact writeStreamReject_judged hopen' (.notOpened prov hhere
        (hfailed.mono (List.subset_append_right _ _)))
    | ok u =>
      exact Judged.bind_done (answerPeer_judged hopen' hhere) fun _ => Prog.within_perform rfl

/-- A decision on a forwarded stream: the first event is the `FORWARD_STREAM` that it is
about. -/
def ForwardedVerdict (cfg : EdgeConfig) (tr : List EdgeEvent) (op : EdgeOp) : Prop :=
  ∃ m, tr.head? = some ⟨.parseFrame .peer, .ok (.forwardStream (some m))⟩ ∧ PeerVerdict cfg m tr op

/-- **What a peer relay is told of a stream it has forwarded has its grounds, and is told
once.** -/
theorem handleForwardedStream_verdict :
    (handleForwardedStream cfg).Sites fun tr op => isVerdict op = true →
      ForwardedVerdict cfg tr op := by
  suffices h : Judged (ForwardedVerdict cfg) [] (handleForwardedStream cfg) from h
  refine Judged.bind_done (Judged.call rfl fun r hv => ?_) fun _ => Prog.within_perform rfl
  match r with
  | .ok (.forwardStream (some m)) =>
    refine Prog.Sites.imp (dispatchForwarded_judged hv) fun tr op h hop => ?_
    exact ⟨m, rfl, h hop⟩
  | .error err | .ok (.openStream _) | .ok (.forwardStream none) | .ok .streamAccept
  | .ok (.streamReject _ _) | .ok (.streamResume _) | .ok (.migrateToRelay _) | .ok (.other _) =>
    exact judged_pure

end Handler
