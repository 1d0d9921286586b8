import OutRelay.Admission
import OutRelay.StreamContacts

/-!
# Streams between relays

A fleet of relays runs many stream handlers at once. Where a provider is
connected to another relay, the handler of the agent's stream opens a stream to
that relay and asks it (`FORWARD_STREAM`), and the other relay starts a handler
for what comes in. That handler cannot know the agent: it takes over what it is
told.

The machine below is the whole fleet: any number of handlers on any number of
relays, in any interleaving, under any policies and with any answers of the
controllers. Between two relays it assumes what the transport gives: a handler of
a forwarded stream is there because another handler has opened the stream, each
such stream is handled once, and a frame that is read on it is one that was
written at its other end.

From what single paths do (`StreamContacts`) three statements follow about every
run of the fleet.

* **Who asks is who is named** (`incoming_of_caller`): wherever in the fleet a
  provider is told of a stream, the stream was opened by an agent on its own
  relay, the provider is told that agent's URI and the service and method the
  agent asked for, and the policy of the caller has let it through there. The
  stream has crossed one link between relays at most.
* **At most one provider** (`incoming_at_most_once`): of the handlers that one
  `OPEN_STREAM` leads to, on whichever relays, one tells one provider, once.
* **Joined means accepted** (`joined_of_accepted`): a consumer is joined with a
  peer relay only after a provider has been told of its stream and has accepted.
-/

open Handler

/-! ## The fleet -/

/-- A handler: of a stream that an agent opens on relay `r`, or, on relay `r`, of a
stream that the handler `origin` has opened to it. -/
inductive NetworkTask
  | consumer (r : ℕ) (caller : AgentConn)
  | forwarded (r origin : ℕ)

/-- The handler of a stream that `j` has opened. -/
def NetworkTask.isFrom (j : ℕ) : NetworkTask → Bool
  | .forwarded _ origin => origin = j
  | .consumer _ _ => false

/-- The handlers of a fleet whose relay `r` is configured by `cfg r`. -/
def networkService (cfg : ℕ → EdgeConfig) : Service edge Unit NetworkTask Unit Empty where
  init := ()
  code
    | .consumer r caller => handleConsumerStream (cfg r) caller
    | .forwarded r _ => handleForwardedStream (cfg r)
  act _ _ _ := some ()
  env _ _ := none

/-- A state of the fleet. -/
abbrev NetworkState := ServiceState edge Unit NetworkTask

/-- A step of the fleet. -/
abbrev NetworkStep := ServiceStep edge Unit NetworkTask Unit Empty

/-- A stream to a peer relay is opened. -/
def opensPeer : EdgeEvent → Bool
  | ⟨.openPeerStream, .ok ()⟩ => true
  | _ => false

/-- The relay that has forwarded the stream is told that it is accepted. -/
def acceptsPeer : EdgeEvent → Bool
  | ⟨.writeFrame .peer .streamAccept, _⟩ => true
  | _ => false

/-- It is told that the stream is rejected. -/
def rejectsPeer (code : UInt32) (reason : GoString) : EdgeEvent → Bool
  | ⟨.writeFrame .peer (.streamReject code' reason' _), _⟩ => code' = code ∧ reason' = reason
  | _ => false

namespace NetworkState

/-- Handler `i` has performed an event with `p`. -/
def hasDone (s : NetworkState) (i : ℕ) (p : EdgeEvent → Bool) : Bool :=
  (s.procs[i]?).any fun g => g.done.any p

/-- A handler of the stream that `j` has opened has performed an event with `p`. -/
def otherEndHasDone (s : NetworkState) (j : ℕ) (p : EdgeEvent → Bool) : Bool :=
  s.procs.any fun g => g.request.isFrom j && g.done.any p

/-- **What may be read on a stream between relays**: a frame that was written at the
other end, or an error. -/
def delivers (s : NetworkState) (i : ℕ) : NetworkTask → Except GoString Frame → Bool
  | .forwarded _ j, .ok (.forwardStream (some m)) => s.hasDone j fun ev => forwards ev = some m
  | .consumer _ _, .ok .streamAccept => s.otherEndHasDone i acceptsPeer
  | .consumer _ _, .ok (.streamReject code reason) =>
    s.otherEndHasDone i (rejectsPeer code reason)
  | _, .ok _ => false
  | _, .error _ => true

/-- An agent may open a stream at any time. The handler of a forwarded stream is
there once the stream has been opened, and it is the only one. -/
def admits (s : NetworkState) : ServiceEvent edge NetworkTask Unit Empty → Bool
  | .spawn (.forwarded _ j) =>
    s.hasDone j opensPeer && !(s.procs.any fun g => g.request.isFrom j)
  | .perform i ω _ =>
    match s.procs[i]? with
    | some ⟨task, _, .call (.parseFrame .peer) _⟩ => s.delivers i task (ω (.parseFrame .peer))
    | _ => true
  | _ => true

end NetworkState

/-- **The fleet.** -/
def networkMachine (cfg : ℕ → EdgeConfig) :
    Machine NetworkState (ServiceEvent edge NetworkTask Unit Empty) :=
  (networkService cfg).machine.guard NetworkState.admits

namespace NetworkState

variable {cfg : ℕ → EdgeConfig} {s s' : NetworkState} {h h₁ h₂ : List NetworkStep}
  {t t' : NetworkStep} {e : ServiceEvent edge NetworkTask Unit Empty} {i i' j r : ℕ}
  {g g' : Goroutine edge NetworkTask} {caller prov : AgentConn} {m : IncomingStream}

theorem hasDone_iff {p : EdgeEvent → Bool} :
    s.hasDone i p = true ↔ ∃ g, s.procs[i]? = some g ∧ ∃ ev ∈ g.done, p ev = true := by
  unfold hasDone
  rw [Option.any_eq_true]
  simp only [List.any_eq_true]

theorem otherEndHasDone_iff {p : EdgeEvent → Bool} : s.otherEndHasDone j p = true
    ↔ ∃ (i : ℕ) (g : Goroutine edge NetworkTask), s.procs[i]? = some g
      ∧ g.request.isFrom j = true ∧ ∃ ev ∈ g.done, p ev = true := by
  unfold otherEndHasDone
  simp only [List.any_eq_true, Bool.and_eq_true]
  constructor
  · rintro ⟨g, hg, hp⟩
    obtain ⟨i, hi⟩ := List.mem_iff_getElem?.mp hg
    exact ⟨i, g, hi, hp⟩
  · rintro ⟨i, g, hi, hp⟩
    exact ⟨g, List.mem_of_getElem? hi, hp⟩

/-- What has been done stays done. -/
theorem hasDone_step {p : EdgeEvent → Bool}
    (hstep : (networkService cfg).machine.step s e = some s')
    (hp : s.hasDone i p = true) : s'.hasDone i p = true := by
  obtain ⟨g, hi, ev, hev, hp⟩ := hasDone_iff.mp hp
  obtain ⟨g', hi', -, hdone⟩ := Service.grows hstep hi
  exact hasDone_iff.mpr ⟨g', hi', ev, hdone.subset hev, hp⟩

theorem hasDone_of_mem {p : EdgeEvent → Bool} (hx : (networkService cfg).machine.Exec h s)
    (ht : t ∈ h) (hp : hasDone t.pre i p = true) : s.hasDone i p = true := by
  obtain ⟨n, hn⟩ := List.mem_iff_getElem?.mp ht
  exact hx.keeps_from (Q := fun s => hasDone s i p = true) hn
    (hasDone_step (hx.step_of_mem ht).2 hp) fun hp hstep => hasDone_step hstep hp

/-! ## Contacts -/

/-- Where a handler makes contact. -/
def TaskSite (cfg : ℕ → EdgeConfig) : NetworkTask → List EdgeEvent → EdgeOp → Prop
  | .consumer r caller => fun tr op => isContact op = true → ConsumerSite (cfg r) caller tr op
  | .forwarded _ _ => fun tr op => isContact op = true → ForwardedSite tr op

theorem code_sites (task : NetworkTask) :
    ((networkService cfg).code task).Sites (TaskSite cfg task) := by
  cases task with
  | consumer r caller => exact handleConsumerStream_contacts
  | forwarded r j => exact handleForwardedStream_contacts

/-- **A contact that has been made stands where its handler makes it.** -/
theorem contact_of_mem (hx : (networkService cfg).machine.Exec h s) (hi : s.procs[i]? = some g)
    {ev : EdgeEvent} (hev : ev ∈ g.done) :
    ∃ pre post, g.done = pre ++ ev :: post ∧ TaskSite cfg g.request pre ev.op := by
  obtain ⟨pre, post, hdone⟩ := List.append_of_mem hev
  exact ⟨pre, post, hdone, (Service.left_of_exec hx hi).site (code_sites g.request) hdone⟩

/-- The beginning of what a handler has done. -/
theorem head?_of_prefix {pre l : List EdgeEvent} {ev : EdgeEvent} (hl : pre <+: l)
    (hev : pre.head? = some ev) : l.head? = some ev := by
  obtain ⟨post, rfl⟩ := hl
  cases pre with
  | nil => cases hev
  | cons ev' pre => exact hev

/-- **Handler `j` is that of the stream `o`**, which the agent of `caller` has opened
on its own relay, and the policy of the caller there has let it through. -/
def OpenedBy (cfg : ℕ → EdgeConfig) (s : NetworkState) (j : ℕ) (caller : AgentConn)
    (o : OpenStream) : Prop :=
  ∃ r g, s.procs[j]? = some g ∧ g.request = .consumer r caller
    ∧ g.done.head? = some ⟨.parseFrame .consumer, .ok (.openStream (some o))⟩
    ∧ CallerAllowed (cfg r) caller o g.done

/-- A contact that only the handler of an agent's stream makes. -/
theorem openedBy_of_site {pre : List EdgeEvent} {op : EdgeOp} (hi : s.procs[i]? = some g)
    (hpre : pre <+: g.done) (hsite : TaskSite cfg g.request pre op) (hc : isContact op = true)
    (hop : ∀ m tr, ¬ ForwardedContact m tr op) :
    ∃ caller o, OpenedBy cfg s i caller o ∧ ConsumerContact caller o pre op := by
  cases hreq : g.request with
  | consumer r caller =>
    rw [hreq] at hsite
    obtain ⟨o, hhead, hcontact, hallowed⟩ := hsite hc
    refine ⟨caller, o, ⟨r, g, hi, hreq, head?_of_prefix hpre hhead, fun hp => ?_⟩, hcontact⟩
    obtain ⟨dec, hmem, hdeny⟩ := hallowed hp
    exact ⟨dec, hpre.subset hmem, hdeny⟩
  | forwarded r j =>
    rw [hreq] at hsite
    obtain ⟨m, -, hcontact⟩ := hsite hc
    exact absurd hcontact (hop m pre)

/-! ## The two ends of a stream between relays -/

/-- The handler of a forwarded stream is there because another has opened it. -/
theorem dialled_of_forwarded (hx : (networkMachine cfg).Exec h s) (hi : s.procs[i]? = some g)
    (hreq : g.request = .forwarded r j) : s.hasDone j opensPeer = true := by
  have hP := Service.admitted (S := networkService cfg)
    (P := fun s task => ∀ r j, task = .forwarded r j → hasDone s j opensPeer = true)
    ?_ ?_ hx hi
  · exact hP r j hreq
  · rintro s _ - hok r j rfl
    exact (Bool.and_eq_true_iff.mp hok).1
  · intro s e s' task hstep hP r j hj
    exact hasDone_step hstep (hP r j hj)

/-- Each stream between relays has one handler at its far end. -/
theorem origin_unique (hx : (networkMachine cfg).Exec h s) (hi : s.procs[i]? = some g)
    (hi' : s.procs[i']? = some g') (hj : g.request.isFrom j = true)
    (hj' : g'.request.isFrom j = true) : i = i' := by
  induction hx generalizing i i' g g' with
  | nil => cases hi
  | @snoc h s s' e hx hstep ih =>
    obtain ⟨hok, hstep⟩ := Machine.step_guard hstep
    -- a handler that has just started is the first with its origin
    have hfirst : ∀ {g₀ g₁ : Goroutine edge NetworkTask} {i₁ : ℕ}, e = .spawn g₀.request →
        g₀.request.isFrom j = true → s.procs[i₁]? = some g₁ → g₁.request.isFrom j ≠ true := by
      rintro g₀ g₁ i₁ rfl hj₀ hi₁ hj₁
      cases hreq : g₀.request with
      | consumer r caller =>
        rw [hreq] at hj₀
        cases hj₀
      | forwarded r j' =>
        rw [hreq] at hj₀ hok
        cases of_decide_eq_true hj₀
        have hnone := (Bool.and_eq_true_iff.mp hok).2
        rw [Bool.not_eq_true', List.any_eq_false] at hnone
        exact hnone g₁ (List.mem_of_getElem? hi₁) hj₁
    obtain ⟨g₀, hi₀, hreq⟩ | ⟨rfl, he, -⟩ := Service.came hstep hi
    · obtain ⟨g₀', hi₀', hreq'⟩ | ⟨rfl, he', -⟩ := Service.came hstep hi'
      · exact ih hi₀ hi₀' (hreq ▸ hj) (hreq' ▸ hj')
      · exact absurd (hreq ▸ hj) (hfirst he' hj' hi₀)
    · obtain ⟨g₀', hi₀', hreq'⟩ | ⟨rfl, he', -⟩ := Service.came hstep hi'
      · exact absurd (hreq' ▸ hj') (hfirst he hj hi₀')
      · rfl

/-- What is read from a peer relay was allowed when it was read. -/
theorem delivers_of_mem (hx : (networkMachine cfg).Exec h s) (hi : s.procs[i]? = some g)
    {ans : Except GoString Frame} (hev : ⟨.parseFrame .peer, ans⟩ ∈ g.done) :
    ∃ u ∈ h, delivers u.pre i g.request ans = true := by
  have hrun := Machine.Exec.of_guard hx
  obtain ⟨u, hu, c, hperf, -⟩ := Service.performed hrun hi hev
  refine ⟨u, hu, ?_⟩
  obtain ⟨ω, g₀, k, he, hi₀, hrest, hans⟩ := hperf
  have hok := hx.guard_of_mem hu
  obtain ⟨task, done, rest⟩ := g₀
  cases hrest
  rw [he] at hok
  simp only [admits, hi₀] at hok
  rw [(Service.grows_from hrun hu hi₀ hi).1]
  have hans : ω (.parseFrame .peer) = ans := hans
  rwa [hans] at hok

theorem op_of_forwards {ev : EdgeEvent} (hev : forwards ev = some m) :
    ev.op = .writeFrame .peer (.forwardStream m) := by
  unfold forwards at hev
  split at hev
  · cases hev
    rfl
  · cases hev

/-- **What the handler of a forwarded stream is told was written by the handler that
has opened the stream**, for the stream of its own agent. -/
theorem asked_by_origin (hx : (networkMachine cfg).Exec h s) (hi : s.procs[i]? = some g)
    (hreq : g.request = .forwarded r j)
    (hev : ⟨.parseFrame .peer, .ok (.forwardStream (some m))⟩ ∈ g.done) :
    ∃ caller o, OpenedBy cfg s j caller o ∧ m = remoteStream caller o := by
  have hrun := Machine.Exec.of_guard hx
  obtain ⟨u, hu, hdel⟩ := delivers_of_mem hx hi hev
  rw [hreq] at hdel
  obtain ⟨gj, hj, ev, hmem, hfwd⟩ := hasDone_iff.mp (hasDone_of_mem hrun hu hdel)
  have hop := op_of_forwards (of_decide_eq_true hfwd)
  obtain ⟨pre, post, hdone, hsite⟩ := contact_of_mem hrun hj hmem
  rw [hop] at hsite
  obtain ⟨caller, o, hopened, hcontact⟩ := openedBy_of_site hj ⟨_, hdone.symm⟩ hsite rfl nofun
  cases hcontact with
  | ask => exact ⟨caller, o, hopened, rfl⟩

/-! ## A stream across two relays -/

/-- The relays of `agentC` and of `agentP`. -/
def twoRelays : ℕ → EdgeConfig
  | 0 => edgeR1
  | _ => edgeR2

/-- The environment of a handler in which everyone accepts and the controller names
the second relay. -/
def accepting (frames : StreamRef → Frame) : ∀ o : EdgeOp, o.Ans :=
  succeeding frames (fun _ _ _ => ⟨.allow, [], .allowed, .splice⟩)
    [⟨agentP.val, edgeR2.relayID, go "r2.example:7000"⟩] connP

/-- The environment of the handler on the first relay. -/
def atCaller : ∀ o : EdgeOp, o.Ans := accepting acceptedBy

/-- That of the handler on the second. -/
def atPeer : ∀ o : EdgeOp, o.Ans := accepting fun
  | .peer => .forwardStream (some (remoteStream connC openPayments))
  | _ => .streamAccept

/-- The first relay takes a stream of `agentC`, and forwards it. -/
def forwardsStream : List (ServiceEvent edge NetworkTask Unit Empty) :=
  .spawn (.consumer 0 connC) :: List.replicate 7 (.perform 0 atCaller ())

/-- The second relay takes it, and performs `n` operations. -/
def takesStream (n : ℕ) : List (ServiceEvent edge NetworkTask Unit Empty) :=
  .spawn (.forwarded 1 0) :: List.replicate n (.perform 1 atPeer ())

/-- Then the first performs another `n'`. -/
def goesOn (n' : ℕ) : List (ServiceEvent edge NetworkTask Unit Empty) :=
  List.replicate n' (.perform 0 atCaller ())

/-- A stream of `agentC` across two relays. -/
def crossing (n n' : ℕ) : List (ServiceEvent edge NetworkTask Unit Empty) :=
  forwardsStream ++ takesStream n ++ goesOn n'

/-- What the provider of that stream is told. -/
def tellsPayments : EdgeEvent :=
  ⟨.writeFrame (.provider connP) (.incomingStream
    (passedStream (remoteStream connC openPayments) [])), .ok ()⟩

/-- The run up to the second relay's word to the provider. -/
theorem crossing_tells : ∃ (h : List NetworkStep) (t : NetworkStep) (s : NetworkState),
    (networkMachine twoRelays).Exec (h ++ [t]) s ∧ Service.Performs t 1 () tellsPayments
      ∧ ∃ g, s.procs[1]? = some g ∧ g.request.isFrom 0 = true := by
  obtain ⟨s, s', g, k, hrun, hstep, hg, hrest, hfrom⟩ : ∃ s s' g k,
      (networkMachine twoRelays).run (crossing 5 0) (networkMachine twoRelays).init = some s
      ∧ (networkMachine twoRelays).step s (.perform 1 atPeer ()) = some s'
      ∧ s.procs[1]? = some g ∧ g.rest = .call tellsPayments.op k
      ∧ ∃ g', s'.procs[1]? = some g' ∧ g'.request.isFrom 0 = true :=
    ⟨_, _, _, _, rfl, rfl, rfl, rfl, _, rfl, rfl⟩
  obtain ⟨h, hx, -⟩ := Machine.exec_of_run _ _ hrun
  exact ⟨h, ⟨s, .perform 1 atPeer (), s'⟩, s', hx.snoc hstep,
    ⟨atPeer, g, k, rfl, hg, hrest, rfl⟩, hfrom⟩

/-! ## Who is named -/

/-- **What handler `i` says of a stream is true**: an agent has opened it on its own
relay, where the policy of the caller has let it through, and `m` has the URI of that
agent and what the agent asked for. The handler is that of the agent's stream, or that
of the one stream that it has opened to another relay; there the stream id is lost. -/
def NamesCaller (cfg : ℕ → EdgeConfig) (s : NetworkState) (i : ℕ) (m : IncomingStream) : Prop :=
  ∃ j caller o, OpenedBy cfg s j caller o ∧ m.sourceAgentURI = caller.uri
    ∧ m.targetService = o.targetService ∧ m.method = o.method
    ∧ ((i = j ∧ m.streamID = o.streamID)
      ∨ ((∃ r g, s.procs[i]? = some g ∧ g.request = .forwarded r j) ∧ m.streamID = 0))

/-- **Who asks is who is named**, wherever in the fleet a provider is told of a
stream. -/
theorem incoming_of_caller {ans : Except GoString Unit} (hx : (networkMachine cfg).Exec h s)
    (ht : t ∈ h)
    (hperf : Service.Performs t i () ⟨.writeFrame (.provider prov) (.incomingStream m), ans⟩) :
    NamesCaller cfg t.pre i m := by
  obtain ⟨⟨h', hx'⟩, -⟩ := hx.step_of_mem ht
  obtain ⟨g, hi, hsite⟩ := Service.site_of_performs code_sites (Machine.Exec.of_guard hx') hperf
  cases hreq : g.request with
  | consumer r caller =>
    rw [hreq] at hsite
    obtain ⟨o, hhead, hcontact, hallowed⟩ := hsite rfl
    have hopened : OpenedBy cfg t.pre i caller o := ⟨r, g, hi, hreq, hhead, hallowed⟩
    cases hcontact with
    | tell => exact ⟨i, caller, o, hopened, rfl, rfl, rfl, Or.inl ⟨rfl, rfl⟩⟩
  | forwarded r j =>
    rw [hreq] at hsite
    obtain ⟨m', hhead, hcontact⟩ := hsite rfl
    obtain ⟨caller, o, hopened, rfl⟩ := asked_by_origin hx' hi hreq (List.mem_of_mem_head? hhead)
    cases hcontact with
    | tell =>
      exact ⟨j, caller, o, hopened, rfl, rfl, rfl, Or.inr ⟨⟨r, g, hi, hreq⟩, rfl⟩⟩

/-- The provider of the crossing stream is told who has opened it. -/
theorem crossing_named : ∃ (h : List NetworkStep) (t : NetworkStep) (s : NetworkState),
    (networkMachine twoRelays).Exec h s ∧ t ∈ h ∧ Service.Performs t 1 () tellsPayments
      ∧ NamesCaller twoRelays t.pre 1 (passedStream (remoteStream connC openPayments) []) := by
  obtain ⟨h, t, s, hx, hperf, -⟩ := crossing_tells
  have ht : t ∈ h ++ [t] := List.mem_append_right _ (List.mem_singleton_self t)
  exact ⟨_, t, s, hx, ht, hperf, incoming_of_caller hx ht hperf⟩

/-! ## At most once -/

/-- The handlers that the stream of handler `j` leads to: its own, and that of the
stream it has opened to another relay. -/
def LeadsTo (s : NetworkState) (j i : ℕ) : Prop :=
  i = j ∨ ∃ g, s.procs[i]? = some g ∧ g.request.isFrom j = true

theorem isContact_of_sendsTo {ev : EdgeEvent} (hev : sendsTo ev ≠ none) :
    ∃ prov m, ev.op = .writeFrame (.provider prov) (.incomingStream m) := by
  unfold sendsTo at hev
  split at hev
  next prov m ans => exact ⟨prov, m, rfl⟩
  · exact absurd rfl hev

/-- A provider is told before any other contact. -/
theorem contacts_of_tell {pre : List EdgeEvent} {task : NetworkTask}
    (hsite : TaskSite cfg task pre (.writeFrame (.provider prov) (.incomingStream m))) :
    contacts pre = [] := by
  cases task with
  | consumer r caller =>
    obtain ⟨o, -, hcontact, -⟩ := hsite rfl
    cases hcontact with
    | tell _ _ h => exact h
  | forwarded r j =>
    obtain ⟨m', -, hcontact⟩ := hsite rfl
    cases hcontact with
    | tell _ _ h => exact h

/-- A peer relay is dialled before any other contact. -/
theorem contacts_of_dial {pre : List EdgeEvent} {task : NetworkTask}
    (hsite : TaskSite cfg task pre .openPeerStream) : contacts pre = [] := by
  cases task with
  | consumer r caller =>
    obtain ⟨o, -, hcontact, -⟩ := hsite rfl
    cases hcontact with
    | dial h => exact h
  | forwarded r j =>
    obtain ⟨m', -, hcontact⟩ := hsite rfl
    cases hcontact

/-- **A handler that has dialled a peer relay tells no provider.** -/
theorem not_tell_of_dial (hx : (networkService cfg).machine.Exec h s) (hi : s.procs[i]? = some g)
    {ev ev' : EdgeEvent} (hev : ev ∈ g.done) (hev' : ev' ∈ g.done)
    (htell : ev.op = .writeFrame (.provider prov) (.incomingStream m)) :
    ev'.op ≠ .openPeerStream := by
  intro hdial
  obtain ⟨pre, post, hdone, hsite⟩ := contact_of_mem hx hi hev
  rw [htell] at hsite
  have hpre := contacts_of_tell hsite
  have hmem : ∀ {l : List EdgeEvent} {e : EdgeEvent}, contacts l = [] → isContact e.op = true →
      e ∉ l := by
    intro l e hl he hin
    have := mem_contacts hin he
    rw [hl] at this
    cases this
  rw [hdone] at hev'
  obtain hev' | hev' := List.mem_append.mp hev'
  · exact hmem hpre (by rw [hdial]; rfl) hev'
  · obtain rfl | hev' := List.mem_cons.mp hev'
    · cases htell.symm.trans hdial
    · obtain ⟨mid, post', rfl⟩ := List.append_of_mem hev'
      have hsite' := (Service.left_of_exec hx hi).site (code_sites g.request)
        (hdone.trans (List.append_assoc pre (ev :: mid) (ev' :: post')).symm)
      rw [hdial] at hsite'
      exact hmem (contacts_of_dial hsite') (by rw [htell]; rfl)
        (List.mem_append_right pre List.mem_cons_self)

/-- One handler tells one provider. -/
theorem tell_once (hx : (networkMachine cfg).Exec h s) {k k' : ℕ} {ev ev' : EdgeEvent}
    (hk : h[k]? = some t) (hk' : h[k']? = some t') (hperf : Service.Performs t i () ev)
    (hperf' : Service.Performs t' i () ev') (htell : sendsTo ev ≠ none)
    (htell' : sendsTo ev' ≠ none) : ¬ k < k' := by
  intro hlt
  obtain ⟨h₁, h₂, rfl, rfl, hx₁, -⟩ := hx.of_getElem? hk'
  have hrun := Machine.Exec.of_guard hx₁
  have ht : t ∈ h₁ := by
    rw [List.getElem?_append_left hlt] at hk
    exact List.mem_of_getElem? hk
  obtain ⟨g, hi, hsite⟩ := Service.site_of_performs code_sites hrun hperf'
  obtain ⟨prov, m, hop⟩ := isContact_of_sendsTo htell
  obtain ⟨prov', m', hop'⟩ := isContact_of_sendsTo htell'
  rw [hop'] at hsite
  have hmem := mem_contacts (Service.mem_done hrun hi ht hperf) (by rw [hop]; rfl)
  rw [contacts_of_tell hsite] at hmem
  cases hmem

/-- A handler whose stream has gone to another relay tells no provider itself. -/
theorem not_tell_of_forwarded (hx : (networkMachine cfg).Exec h s) {ev : EdgeEvent} (ht : t ∈ h)
    (hperf : Service.Performs t j () ev) (htell : sendsTo ev ≠ none)
    (hi : s.procs[i]? = some g) : g.request.isFrom j ≠ true := by
  intro hj
  have hrun := Machine.Exec.of_guard hx
  cases hreq : g.request with
  | consumer r caller =>
    rw [hreq] at hj
    cases hj
  | forwarded r j' =>
    rw [hreq] at hj
    cases of_decide_eq_true hj
    obtain ⟨gj, hgj, ev', hev', hdial⟩ := hasDone_iff.mp (dialled_of_forwarded hx hi hreq)
    obtain ⟨prov, m, hop⟩ := isContact_of_sendsTo htell
    refine not_tell_of_dial hrun hgj (Service.mem_done hrun hgj ht hperf) hev' hop ?_
    unfold opensPeer at hdial
    split at hdial
    · rfl
    · cases hdial

/-- **At most one provider is told**, once, by the handlers that one `OPEN_STREAM`
leads to. -/
theorem incoming_at_most_once (hx : (networkMachine cfg).Exec h s) {k k' : ℕ} {ev ev' : EdgeEvent}
    (hk : h[k]? = some t) (hk' : h[k']? = some t') (hperf : Service.Performs t i () ev)
    (hperf' : Service.Performs t' i' () ev') (htell : sendsTo ev ≠ none)
    (htell' : sendsTo ev' ≠ none) (hlead : s.LeadsTo j i) (hlead' : s.LeadsTo j i') :
    k = k' := by
  have hii : i = i' := by
    obtain rfl | ⟨g, hi, hj⟩ := hlead
    · obtain rfl | ⟨g', hi', hj'⟩ := hlead'
      · rfl
      · exact absurd hj' (not_tell_of_forwarded hx (List.mem_of_getElem? hk) hperf htell hi')
    · obtain rfl | ⟨g', hi', hj'⟩ := hlead'
      · exact absurd hj (not_tell_of_forwarded hx (List.mem_of_getElem? hk') hperf' htell' hi)
      · exact origin_unique hx hi hi' hj hj'
  subst hii
  exact Nat.le_antisymm (Nat.not_lt.mp (tell_once hx hk' hk hperf' hperf htell' htell))
    (Nat.not_lt.mp (tell_once hx hk hk' hperf hperf' htell htell'))

/-- In the run of the crossing stream one step tells a provider. -/
theorem crossing_told_once : ∃ (h : List NetworkStep) (t : NetworkStep) (s : NetworkState) (k : ℕ),
    (networkMachine twoRelays).Exec h s ∧ h[k]? = some t ∧ Service.Performs t 1 () tellsPayments
      ∧ s.LeadsTo 0 1 ∧ ∀ k' t', h[k']? = some t' → Service.Performs t' 1 () tellsPayments →
        k = k' := by
  obtain ⟨h, t, s, hx, hperf, hfrom⟩ := crossing_tells
  have hk : (h ++ [t])[h.length]? = some t := List.getElem?_concat_length
  exact ⟨_, t, s, h.length, hx, hk, hperf, Or.inr hfrom, fun k' t' hk' hperf' =>
    incoming_at_most_once hx hk hk' hperf hperf' nofun nofun (Or.inr hfrom) (Or.inr hfrom)⟩

/-! ## Joined means accepted -/

/-- **A provider has accepted the stream `m`** that came from handler `j`: it has been
told of the stream, and its `STREAM_ACCEPT` has been read. -/
def AcceptedFor (s : NetworkState) (j : ℕ) (m : IncomingStream) : Prop :=
  ∃ (i : ℕ) (g : Goroutine edge NetworkTask), s.procs[i]? = some g ∧ g.request.isFrom j = true
    ∧ ∃ prov resumeRelays,
      .writeFrame (.provider prov) (.incomingStream (passedStream m resumeRelays)) ∈ contacts g.done
      ∧ ⟨.parseFrame (.provider prov), .ok .streamAccept⟩ ∈ g.done

theorem op_of_acceptsPeer {ev : EdgeEvent} (hev : acceptsPeer ev = true) :
    ev.op = .writeFrame .peer .streamAccept := by
  unfold acceptsPeer at hev
  split at hev
  · rfl
  · cases hev

theorem eq_of_isAccepted {ev : EdgeEvent} (hev : isAccepted ev = true) :
    ev = ⟨.parseFrame .peer, .ok .streamAccept⟩ := by
  unfold isAccepted at hev
  split at hev
  · rfl
  · cases hev

/-- A peer is told of an acceptance after the provider's has been read. -/
theorem acceptedFor_of_mem (hx : (networkMachine cfg).Exec h s) (hi : s.procs[i]? = some g)
    (hj : g.request.isFrom j = true) {ev : EdgeEvent} (hev : ev ∈ g.done)
    (hop : ev.op = .writeFrame .peer .streamAccept) :
    ∃ caller o, OpenedBy cfg s j caller o ∧ s.AcceptedFor j (remoteStream caller o) := by
  obtain ⟨pre, post, hdone, hsite⟩ := contact_of_mem (Machine.Exec.of_guard hx) hi hev
  rw [hop] at hsite
  cases hreq : g.request with
  | consumer r caller =>
    rw [hreq] at hj
    cases hj
  | forwarded r j' =>
    have hj' := hj
    rw [hreq] at hsite hj'
    cases of_decide_eq_true hj'
    obtain ⟨m, hhead, hcontact⟩ := hsite rfl
    have hpre : pre <+: g.done := ⟨_, hdone.symm⟩
    obtain ⟨caller, o, hopened, rfl⟩ := asked_by_origin hx hi hreq
      (hpre.subset (List.mem_of_mem_head? hhead))
    cases hcontact with
    | accept prov resumeRelays h haccept =>
      refine ⟨caller, o, hopened, i, g, hi, hj, prov, resumeRelays, ?_, hpre.subset haccept⟩
      rw [hdone, contacts_append, h]
      exact List.mem_append_left _ (List.mem_singleton_self _)

/-- **A consumer is joined with a peer relay only after a provider has accepted** the
consumer's own stream at the far end. -/
theorem joined_of_accepted {n : ℕ} (hx : (networkMachine cfg).Exec h s) (ht : t ∈ h)
    (hperf : Service.Performs t j () ⟨.splice .consumer .peer, n⟩) :
    ∃ caller o, OpenedBy cfg t.pre j caller o
      ∧ AcceptedFor t.pre j (remoteStream caller o) := by
  obtain ⟨⟨h', hx'⟩, -⟩ := hx.step_of_mem ht
  have hrun := Machine.Exec.of_guard hx'
  obtain ⟨gj, hj, hsite⟩ := Service.site_of_performs code_sites hrun hperf
  obtain ⟨caller, o, hopened, hcontact⟩ := openedBy_of_site hj List.prefix_rfl hsite rfl nofun
  obtain ⟨r, gj', hj', hreq, -, -⟩ := id hopened
  cases hj.symm.trans hj'
  cases hcontact with
  | join _ haccept =>
    obtain ⟨ev, hev, ha⟩ := haccept
    rw [eq_of_isAccepted ha] at hev
    obtain ⟨u, hu, hdel⟩ := delivers_of_mem hx' hj hev
    rw [hreq] at hdel
    obtain ⟨i, g₀, hi₀, hfrom, ev', hev', ha'⟩ := otherEndHasDone_iff.mp hdel
    obtain ⟨g, hi, ev'', hev'', ha''⟩ := hasDone_iff.mp (hasDone_of_mem hrun hu
      (hasDone_iff.mpr ⟨g₀, hi₀, ev', hev', ha'⟩))
    have hsame := (Service.grows_from hrun hu hi₀ hi).1
    exact acceptedFor_of_mem hx' hi (hsame ▸ hfrom) hev'' (op_of_acceptsPeer ha'')

/-- The consumer of the crossing stream is joined, and the provider has accepted. -/
theorem crossing_joined : ∃ (h : List NetworkStep) (t : NetworkStep) (s : NetworkState),
    (networkMachine twoRelays).Exec h s ∧ t ∈ h
      ∧ Service.Performs t 0 () ⟨.splice .consumer .peer, (0 : ℕ)⟩
      ∧ ∃ caller o, OpenedBy twoRelays t.pre 0 caller o
        ∧ AcceptedFor t.pre 0 (remoteStream caller o) := by
  obtain ⟨s, s', g, k, hrun, hstep, hg, hrest⟩ : ∃ s s' g k,
      (networkMachine twoRelays).run (crossing 8 1) (networkMachine twoRelays).init = some s
      ∧ (networkMachine twoRelays).step s (.perform 0 atCaller ()) = some s'
      ∧ s.procs[0]? = some g ∧ g.rest = .call (.splice .consumer .peer) k :=
    ⟨_, _, _, _, rfl, rfl, rfl, rfl⟩
  obtain ⟨h, hx, -⟩ := Machine.exec_of_run _ _ hrun
  have hperf : Service.Performs (⟨s, .perform 0 atCaller (), s'⟩ : NetworkStep) 0 ()
      ⟨.splice .consumer .peer, (0 : ℕ)⟩ := ⟨atCaller, g, k, rfl, hg, hrest, rfl⟩
  have ht : (⟨s, .perform 0 atCaller (), s'⟩ : NetworkStep)
      ∈ h ++ [⟨s, .perform 0 atCaller (), s'⟩] :=
    List.mem_append_right _ (List.mem_singleton_self _)
  exact ⟨_, _, s', hx.snoc hstep, ht, hperf, joined_of_accepted (hx.snoc hstep) ht hperf⟩

end NetworkState
