import OutRelay.ControlRouting
import OutRelay.Joint
import OutRelay.RelayNetwork
import OutRelay.StreamEnds

/-!
# Connections and streams of a fleet, together

`ControlRouting` has the control loop of one connection, and what the tables answer it is
left open. `RelayNetwork` has the stream handlers of a fleet, and which agents they are
started for and what the registry answers them is left open. Here all run together, on any
number of relays: `serveConn` and the control loops on one side, the handlers on the
other, over the registry and the pair table of each relay.

A control loop or a handler is there because a `serveConn` of its relay has started it.
What it asks of the registry it is answered by the registry, which the connections fill.
The rows of the pair table are those that handlers have recorded, or the goroutines that
splice resumed halves; of these only the two calls are modelled. `ResumeMatcher` says that
the two halves are of one stream id, so the row is under an id that handlers of both agents
have read in a `STREAM_RESUME` or `MIGRATE_TO_RELAY`.

Forgetting the connections leaves a run of the network of handlers (`network_of_exec`), so
what has been shown of that network holds of the fleet. The other way round, what was left
open there is now known:

* **the registry answers with connections that have authenticated** under the URI asked
  for, on the relay that is asked (`registered_of_exec`), and this holds of every answer
  that a goroutine has had, however long ago (`answered_right`, `answered_left`);
* **every handler and every control loop is that of an authenticated connection**
  (`caller_authenticated`, `control_authenticated`);
* **every row of the pair table has its origin** in a stream between its two agents that a
  handler has recorded and not forgotten since, or in halves of that stream from both
  (`rows_of_exec`).
-/

open Handler ConnProc

/-! ## A connection by its number -/

namespace ConnProc

variable {cfg : RelayConfig} {codec : Codec} {ac : AgentConn} {id n : ℕ} {uri : GoString}

/-- An operation for the connection `id`, or for none. -/
def OfConn (id : ℕ) (o : ConnOp) : Prop := ∀ ac, o.conn = some ac → ac.id = id

theorem ofConn_of_none {o : ConnOp} (ho : o.conn = none) : OfConn id o := by
  intro ac hac
  cases ho.symm.trans hac

theorem ofConn_self {o : ConnOp} (ho : o.conn = some ac) : OfConn ac.id o := by
  intro ac' hac
  cases ho.symm.trans hac
  rfl

theorem serveRegistered_ofConn : (serveRegistered cfg ac n).Within (OfConn ac.id) := by
  refine Prog.Within.bind (Prog.within_perform (ofConn_self rfl)) fun _ => ?_
  refine Prog.Within.bind (Prog.within_perform (ofConn_self rfl)) fun _ => ?_
  refine Prog.Within.deferred (teardown_within (ofConn_self rfl) (ofConn_of_none rfl)
    (fun _ => ofConn_of_none rfl) (ofConn_of_none rfl)) ?_
  refine Prog.Within.deferred (Prog.within_perform (ofConn_of_none rfl)) ?_
  refine Prog.Within.bind (Prog.within_perform (ofConn_self rfl)) fun _ => ?_
  exact Prog.Within.rounds (acceptRound_within (ofConn_of_none rfl)
    (Prog.within_perform (ofConn_self rfl)))

/-- **`serveConn` has to do with its own connection only.** -/
theorem serveConn_ofConn : (serveConn cfg codec id n).Within (OfConn id) := by
  have hnone : ∀ o : ConnOp, o.conn = none → (perform o).Within (OfConn id) :=
    fun o ho => Prog.within_perform (ofConn_of_none ho)
  refine Prog.Within.deferred (hnone _ rfl) ?_
  refine Prog.Within.bind ?_ fun r => ?_
  · refine Prog.Within.bind (hnone _ rfl) fun certs => ?_
    match certs with
    | [] | [] :: _ | (_ :: _) :: _ => exact Prog.within_pure
  · cases r with
    | error err => exact Prog.within_pure
    | ok uri =>
      dsimp only
      cases cfg.parse uri with
      | none => exact Prog.within_pure
      | some name =>
        dsimp only
        split_ifs
        · exact Prog.Within.rounds (acceptRound_within (ofConn_of_none rfl) (hnone _ rfl))
        · refine Prog.Within.bind (hnone _ rfl) fun r => ?_
          cases r with
          | error err => exact Prog.within_pure
          | ok u =>
            refine Prog.Within.bind (hnone _ rfl) fun r => ?_
            cases r with
            | error err => exact Prog.within_pure
            | ok f =>
              dsimp only
              cases unmarshalProto f .hello codec.hello with
              | none => exact Prog.within_pure
              | some agentURI =>
                dsimp only
                split_ifs
                · exact Prog.within_pure
                · refine Prog.Within.bind (hnone _ rfl) fun _ =>
                    Prog.Within.bind (hnone _ rfl) fun r => ?_
                  cases r with
                  | error err => exact Prog.within_pure
                  | ok u => exact serveRegistered_ofConn

end ConnProc

/-! ## The fleet -/

/-- The goroutines of the connections to relay `r`: `serveConn` for connection `id`, and
the control loop of an agent's connection. -/
inductive LinkTask
  | serve (r id n : ℕ)
  | control (r : ℕ) (ac : AgentConn) (n : ℕ)

/-- The relay that a goroutine of a connection runs on. -/
def LinkTask.relay : LinkTask → ℕ
  | .serve r _ _ | .control r _ _ => r

/-- The goroutine is `serveConn` on relay `r`. -/
def LinkTask.isServe (r : ℕ) : LinkTask → Bool
  | .serve r' _ _ => r' = r
  | .control _ _ _ => false

/-- It is `serveConn` for the connection `id`. -/
def LinkTask.isConn (r id : ℕ) : LinkTask → Bool
  | .serve r' id' _ => r' = r ∧ id' = id
  | .control _ _ _ => false

/-- The relay that a handler runs on. -/
def NetworkTask.relay : NetworkTask → ℕ
  | .consumer r _ | .forwarded r _ => r

/-- The handler is that of a stream of the agent `uri` on relay `r`. -/
def NetworkTask.isOf (r : ℕ) (uri : GoString) : NetworkTask → Bool
  | .consumer r' caller => r' = r ∧ caller.uri = uri
  | .forwarded _ _ => false

/-- The tables of a relay: `Registry.agentConns` and `Server.pairs`. -/
structure RoutingTables where
  agentConns : GoMap GoString AgentConn
  pairs : PairTable

namespace RoutingTables

/-- What an operation of a connection's goroutine does to the tables. -/
def onLink (s : RoutingTables) : ConnEvent → Option RoutingTables
  | ⟨.registerAgent ac, _⟩ => some { s with agentConns := s.agentConns.set ac.uri ac }
  | ⟨.unregisterAgent uri, _⟩ => some { s with agentConns := s.agentConns.del uri }
  | ⟨.lookupAgent uri, ans⟩ => if s.agentConns.get uri = ans then some s else none
  | ⟨.peerOf sid uri, ans⟩ => if peerOf s.pairs sid uri = ans then some s else none
  | ⟨.pairRow sid, ans⟩ => if s.pairs.get sid = ans then some s else none
  | _ => some s

/-- What an operation of a handler does to them. -/
def onStream (s : RoutingTables) : EdgeEvent → Option RoutingTables
  | ⟨.localAgent uri, ans⟩ => if s.agentConns.get uri = ans then some s else none
  | ⟨.lookupAgent uri, ans⟩ => if s.agentConns.get uri = ans then some s else none
  | ⟨.recordPair sid p, ans⟩ =>
    if (recordPair s.pairs sid p).fst = ans then
      some { s with pairs := (recordPair s.pairs sid p).snd }
    else none
  | ⟨.forgetPair sid, _⟩ => some { s with pairs := forgetPair s.pairs sid }
  | _ => some s

end RoutingTables

/-- The calls of a goroutine that splices two resumed halves on relay `r`. -/
inductive PairCall
  | replacePair (r : ℕ) (sid : UInt64) (p : StreamPair)
  | forgetPair (r : ℕ) (sid : UInt64)

/-- The connections of the fleet. -/
def linkService (cfg : ℕ → EdgeConfig) (codec : Codec) :
    Service connection (ℕ → RoutingTables) LinkTask ℕ PairCall where
  init _ := ⟨∅, ∅⟩
  code
    | .serve r id n => serveConn (cfg r).toRelayConfig codec id n
    | .control r ac n => controlLoop (cfg r).toRelayConfig codec ac n
  act r s ev := ((s r).onLink ev).map (Function.update s r)
  env s
    | .replacePair r sid p =>
      some (Function.update s r { s r with pairs := replacePair (s r).pairs sid p })
    | .forgetPair r sid =>
      some (Function.update s r { s r with pairs := forgetPair (s r).pairs sid })

/-- The stream handlers of the fleet. -/
def streamService (cfg : ℕ → EdgeConfig) :
    Service edge (ℕ → RoutingTables) NetworkTask ℕ Empty where
  init _ := ⟨∅, ∅⟩
  code := (networkService cfg).code
  act r s ev := ((s r).onStream ev).map (Function.update s r)
  env _ _ := none

/-- A state of the fleet. -/
abbrev MeshState := Joint connection edge (ℕ → RoutingTables) LinkTask NetworkTask

/-- A step of a connection's goroutine or of a handler. -/
abbrev MeshEvent :=
  ServiceEvent connection LinkTask ℕ PairCall ⊕ ServiceEvent edge NetworkTask ℕ Empty

/-- A step of the fleet. -/
abbrev MeshStep := Transition MeshState MeshEvent

/-- The stream that an agent asks to be resumed, in what it sends first. -/
def Frame.resumed? : Frame → Option UInt64
  | .streamResume (some m) => some m.streamID
  | .migrateToRelay (some m) => some m.streamID
  | _ => none

/-- A handler reads that its agent resumes the stream `sid`. -/
def resumesStream (sid : UInt64) : EdgeEvent → Bool
  | ⟨.parseFrame .consumer, .ok frame⟩ => frame.resumed? = some sid
  | _ => false

namespace MeshState

/-- The handlers alone. -/
def network (s : MeshState) : NetworkState := ⟨(), s.right⟩

/-- A `serveConn` on relay `r` has performed `o`. -/
def started (s : MeshState) (r : ℕ) (o : ConnOp) : Bool :=
  s.left.any fun g => g.request.isServe r && g.done.any fun ev => ev.op = o

/-- A handler of the agent `uri` on relay `r` has a half of the stream `sid`. -/
def resumes (s : MeshState) (r : ℕ) (sid : UInt64) (uri : GoString) : Bool :=
  s.right.any fun g => g.request.isOf r uri && g.done.any (resumesStream sid)

/-- **What may happen.** A connection has a new number. A control loop and a handler are
there once `serveConn` on the relay has started them, and the handler of a forwarded
stream is that of a stream which another handler has opened. A goroutine works on the
tables of its relay. -/
def admits (s : MeshState) : MeshEvent → Bool
  | .inl (.spawn (.serve r id _)) => !(s.left.any fun g => g.request.isConn r id)
  | .inl (.spawn (.control r ac _)) => s.started r (.startControlLoop ac)
  | .inl (.perform i _ r) => (s.left[i]?).any fun g => g.request.relay = r
  | .inl (.env (.replacePair r sid p)) =>
    s.resumes r sid p.consumerURI && s.resumes r sid p.providerURI
  | .inl (.env (.forgetPair _ _)) => true
  | .inr (.spawn (.consumer r caller)) => s.started r (.startConsumerStream caller)
  | .inr (.spawn (.forwarded r j)) =>
    s.started r .startForwardedStream && s.network.admits (.spawn (.forwarded r j))
  | .inr (.perform i ω r) =>
    ((s.right[i]?).any fun g => g.request.relay = r) && s.network.admits (.perform i ω ())
  | .inr (.env _) => false

end MeshState

/-- **The fleet**, with its connections and its streams. -/
def meshMachine (cfg : ℕ → EdgeConfig) (codec : Codec) : Machine MeshState MeshEvent :=
  ((linkService cfg codec).join (streamService cfg) fun _ => ⟨∅, ∅⟩).guard MeshState.admits

namespace MeshState

variable {cfg : ℕ → EdgeConfig} {codec : Codec} {s s' : MeshState} {h : List MeshStep}
  {e : MeshEvent} {t : MeshStep} {i r id n : ℕ} {ac caller prov : AgentConn} {uri : GoString}
  {sid : UInt64} {p : StreamPair}

/-! ## The handlers alone -/

/-- **The fleet refines the network of handlers**: a run, with the connections and the
tables forgotten, is a run of the network. -/
theorem network_of_exec (hx : (meshMachine cfg codec).Exec h s) :
    (networkMachine cfg).Reachable s.network := by
  induction hx with
  | nil => exact Machine.Reachable.init
  | @snoc h s s' e hx hstep ih =>
    obtain ⟨hok, hstep⟩ := Machine.step_guard hstep
    cases e with
    | inl e =>
      have hsame : s'.network = s.network := by
        unfold network
        rw [(Service.step_left hstep).2]
      rwa [hsame]
    | inr e =>
      obtain ⟨hstep, -⟩ := Service.step_right hstep
      have hnet : ∀ e', s.network.admits e' = true →
          (networkService cfg).machine.step s.network e' = some ⟨(), s'.onRight.procs⟩ →
          (networkMachine cfg).Reachable s'.network :=
        fun _ hadm hstep => ih.step ((if_pos hadm).trans hstep)
      generalize s'.onRight = u at hstep hnet
      cases Service.steps_of_step hstep with
      | spawn task =>
        cases task with
        | consumer r caller => exact hnet (.spawn (.consumer r caller)) rfl rfl
        | forwarded r j => exact hnet _ (Bool.and_eq_true_iff.mp hok).2 rfl
      | @perform i ω r task done o k shared hi hact =>
        exact hnet _ (Bool.and_eq_true_iff.mp hok).2 (Service.step_perform hi rfl)
      | env he => cases he

/-! ## Who has authenticated -/

/-- **The connection `ac` to relay `r` has authenticated** under its URI. -/
def Authenticated (cfg : ℕ → EdgeConfig) (codec : Codec) (s : MeshState) (r : ℕ)
    (ac : AgentConn) : Prop :=
  ∃ (i : ℕ) (g : Goroutine connection LinkTask) (n : ℕ), s.left[i]? = some g
    ∧ g.request = .serve r ac.id n
    ∧ ConnProc.Authenticated (cfg r).toRelayConfig codec ac.uri g.done

theorem Authenticated.mono (h : Authenticated cfg codec s r ac) (hext : s.Extends s') :
    Authenticated cfg codec s' r ac := by
  obtain ⟨i, g, n, hi, hreq, hauth⟩ := h
  obtain ⟨g', hi', hreq', hdone⟩ := hext.left hi
  exact ⟨i, g', n, hi', hreq'.trans hreq, hauth.mono hdone.subset⟩

/-- What each goroutine of a connection requires of the events before an operation. -/
def LinkSite (cfg : ℕ → EdgeConfig) (codec : Codec) : LinkTask → List ConnEvent → ConnOp → Prop
  | .serve r id _ => fun tr o => Entitled (cfg r).toRelayConfig codec tr o ∧ OfConn id o
  | .control _ ac _ => ControlSite codec ac

theorem link_sites (task : LinkTask) :
    ((linkService cfg codec).code task).Sites (LinkSite cfg codec task) := by
  cases task with
  | serve r id n => exact Prog.Sites.and serveConn_gate serveConn_ofConn
  | control r ac n => exact controlLoop_sites

/-- What each handler requires. -/
def StreamSite (cfg : ℕ → EdgeConfig) : NetworkTask → List EdgeEvent → EdgeOp → Prop
  | .consumer r caller => fun tr op => ConsumerEnds (cfg r) caller tr op.reach
  | .forwarded r _ => fun tr op => ForwardedEnds (cfg r) tr op.reach

theorem stream_sites (task : NetworkTask) :
    ((streamService cfg).code task).Sites (StreamSite cfg task) := by
  cases task with
  | consumer r caller => exact handleConsumerStream_ends
  | forwarded r j => exact handleForwardedStream_ends

theorem isServe_iff {task : LinkTask} :
    task.isServe r = true ↔ ∃ id n, task = .serve r id n := by
  cases task with
  | serve r' id n =>
    constructor
    · intro h
      cases of_decide_eq_true h
      exact ⟨id, n, rfl⟩
    · rintro ⟨id', n', h⟩
      cases h
      exact decide_eq_true rfl
  | control r' ac n => exact ⟨nofun, nofun⟩

theorem started_iff {o : ConnOp} : s.started r o = true ↔
    ∃ (i : ℕ) (g : Goroutine connection LinkTask) (id n : ℕ), s.left[i]? = some g
      ∧ g.request = .serve r id n ∧ ∃ ev ∈ g.done, ev.op = o := by
  unfold started
  simp only [List.any_eq_true, Bool.and_eq_true, isServe_iff, decide_eq_true_eq]
  constructor
  · rintro ⟨g, hg, ⟨id, n, hreq⟩, hev⟩
    obtain ⟨i, hi⟩ := List.mem_iff_getElem?.mp hg
    exact ⟨i, g, id, n, hi, hreq, hev⟩
  · rintro ⟨i, g, id, n, hi, hreq, hev⟩
    exact ⟨g, List.mem_of_getElem? hi, ⟨id, n, hreq⟩, hev⟩

/-- What `serveConn` has started, it was entitled to start. -/
theorem entitled_of_started (hx : (meshMachine cfg codec).Exec h s) {o : ConnOp}
    (hs : s.started r o = true) :
    ∃ (i : ℕ) (g : Goroutine connection LinkTask) (id n : ℕ) (pre : List ConnEvent),
      s.left[i]? = some g ∧ g.request = .serve r id n ∧ pre ⊆ g.done
        ∧ Entitled (cfg r).toRelayConfig codec pre o ∧ OfConn id o := by
  obtain ⟨i, g, id, n, hi, hreq, ev, hev, rfl⟩ := started_iff.mp hs
  obtain ⟨pre, post, hdone⟩ := List.append_of_mem hev
  have hsite := (Service.left_of_join hx hi).site (link_sites g.request) hdone
  rw [hreq] at hsite
  have hsub : pre ⊆ g.done := by
    rw [hdone]
    exact List.subset_append_left _ _
  exact ⟨i, g, id, n, pre, hi, hreq, hsub, hsite⟩

/-- What `serveConn` has started is for a connection that has authenticated. -/
theorem authenticated_of_started (hx : (meshMachine cfg codec).Exec h s) {o : ConnOp}
    (hs : s.started r o = true) (ho : o.conn = some ac) : Authenticated cfg codec s r ac := by
  obtain ⟨i, g, id, n, pre, hi, hreq, hsub, hent, hconn⟩ := entitled_of_started hx hs
  have hauth := hent.1 _ (ConnOp.agent_of_conn ho)
  exact ⟨i, g, n, hi, hconn ac ho ▸ hreq, hauth.mono hsub⟩

/-- **Every control loop is that of an authenticated connection.** -/
theorem control_authenticated (hx : (meshMachine cfg codec).Exec h s)
    {g : Goroutine connection LinkTask} (hi : s.left[i]? = some g)
    (hreq : g.request = .control r ac n) : Authenticated cfg codec s r ac := by
  have hP := Service.admitted_left (P := fun s task => ∀ r ac n, task = .control r ac n →
    Authenticated cfg codec s r ac) ?_ ?_ hx hi
  · exact hP r ac n hreq
  · rintro s _ ⟨h, hx⟩ hok r ac n rfl
    exact authenticated_of_started hx hok rfl
  · intro s s' task hext hP r ac n htask
    exact (hP r ac n htask).mono hext

/-- **Every handler of an agent's stream is that of an authenticated connection.** -/
theorem caller_authenticated (hx : (meshMachine cfg codec).Exec h s)
    {g : Goroutine edge NetworkTask} (hi : s.right[i]? = some g)
    (hreq : g.request = .consumer r caller) : Authenticated cfg codec s r caller := by
  have hP := Service.admitted_right (P := fun s task => ∀ r caller, task = .consumer r caller →
    Authenticated cfg codec s r caller) ?_ ?_ hx hi
  · exact hP r caller hreq
  · rintro s _ ⟨h, hx⟩ hok r caller rfl
    exact authenticated_of_started hx hok rfl
  · intro s s' task hext hP r caller htask
    exact (hP r caller htask).mono hext

/-! ## The tables of a relay -/

/-- **What a step does to the tables of relay `r`**, and whose step it is. -/
inductive TableStep (s s' : MeshState) (r : ℕ) : RoutingTables → Prop
  | same : TableStep s s' r (s.shared r)
  | register {i : ℕ} {g : Goroutine connection LinkTask} {ac : AgentConn}
      {k : Unit → ConnProc Unit} (hi : s.left[i]? = some g) (hrelay : g.request.relay = r)
      (hrest : g.rest = .call (.registerAgent ac) k) :
      TableStep s s' r { s.shared r with agentConns := (s.shared r).agentConns.set ac.uri ac }
  | unregister (uri : GoString) :
      TableStep s s' r { s.shared r with agentConns := (s.shared r).agentConns.del uri }
  | record {i : ℕ} {g g' : Goroutine edge NetworkTask} {sid : UInt64} {p : StreamPair}
      {k : Bool → Handler Unit} (hi : s.right[i]? = some g) (hrelay : g.request.relay = r)
      (hrest : g.rest = .call (.recordPair sid p) k) (hi' : s'.right[i]? = some g')
      (hdone : g'.done
        = g.done ++ [⟨.recordPair sid p, (recordPair (s.shared r).pairs sid p).fst⟩]) :
      TableStep s s' r { s.shared r with pairs := (recordPair (s.shared r).pairs sid p).snd }
  | replace (sid : UInt64) (p : StreamPair) (hself : s.resumes r sid p.consumerURI = true)
      (hpeer : s.resumes r sid p.providerURI = true) :
      TableStep s s' r { s.shared r with pairs := replacePair (s.shared r).pairs sid p }
  | forget (sid : UInt64) :
      TableStep s s' r { s.shared r with pairs := forgetPair (s.shared r).pairs sid }

/-- Only the tables of one relay change. -/
theorem tableStep_update {r' : ℕ} {T : RoutingTables} (hT : TableStep s s' r' T) :
    TableStep s s' r (Function.update s.shared r' T r) := by
  by_cases hr : r = r'
  · subst hr
    rwa [Function.update_self]
  · rw [Function.update_of_ne hr]
    exact .same

theorem of_any_some {α : Type} {x : Option α} {a : α} {p : α → Bool} (hx : x = some a)
    (hany : x.any p = true) : p a = true := by
  rwa [hx] at hany

/-- A read leaves the tables as they are. -/
theorem eq_of_read {c : Prop} [Decidable c] {T T' : RoutingTables}
    (h : (if c then some T else none) = some T') : T' = T := by
  split_ifs at h
  exact (Option.some.inj h).symm

theorem tableStep_onLink {g : Goroutine connection LinkTask} {o : ConnOp} {ans : o.Ans}
    {k : o.Ans → ConnProc Unit} {T : RoutingTables} (hi : s.left[i]? = some g)
    (hrelay : g.request.relay = r) (hrest : g.rest = .call o k)
    (hact : (s.shared r).onLink ⟨o, ans⟩ = some T) : TableStep s s' r T := by
  cases o with
  | registerAgent ac =>
    cases hact
    exact .register hi hrelay hrest
  | unregisterAgent uri =>
    cases hact
    exact .unregister uri
  | lookupAgent | peerOf | pairRow =>
    cases eq_of_read hact
    exact .same
  | _ =>
    cases hact
    exact .same

theorem tableStep_onStream {g g' : Goroutine edge NetworkTask} {o : EdgeOp} {ans : o.Ans}
    {k : o.Ans → Handler Unit} {T : RoutingTables} (hi : s.right[i]? = some g)
    (hrelay : g.request.relay = r) (hrest : g.rest = .call o k) (hi' : s'.right[i]? = some g')
    (hdone : g'.done = g.done ++ [⟨o, ans⟩])
    (hact : (s.shared r).onStream ⟨o, ans⟩ = some T) : TableStep s s' r T := by
  cases o with
  | recordPair sid p =>
    have hact : (if (recordPair (s.shared r).pairs sid p).fst = ans then
        some { s.shared r with pairs := (recordPair (s.shared r).pairs sid p).snd }
        else none) = some T := hact
    split_ifs at hact with hans
    cases hact
    subst hans
    exact .record hi hrelay hrest hi' hdone
  | forgetPair sid =>
    cases hact
    exact .forget sid
  | localAgent | lookupAgent =>
    cases eq_of_read hact
    exact .same
  | _ =>
    cases hact
    exact .same

/-- **Every step of the fleet.** -/
theorem tableStep_of_step (hstep : (meshMachine cfg codec).step s e = some s') (r : ℕ) :
    TableStep s s' r (s'.shared r) := by
  obtain ⟨hok, hstep⟩ := Machine.step_guard hstep
  cases e with
  | inl e =>
    have hstep := (Service.step_left hstep).1
    have hshared : s'.shared = s'.onLeft.shared := rfl
    rw [hshared]
    generalize s'.onLeft = u at hstep ⊢
    cases Service.steps_of_step hstep with
    | spawn task => exact .same
    | @perform i ω c task done o k shared hi hact =>
      obtain ⟨T, hT, rfl⟩ := Option.map_eq_some_iff.mp hact
      have hrelay := of_any_some hi hok
      exact tableStep_update (tableStep_onLink hi (of_decide_eq_true hrelay) rfl hT)
    | @env e shared he =>
      cases e with
      | replacePair r' sid p =>
        cases he
        obtain ⟨hself, hpeer⟩ := Bool.and_eq_true_iff.mp hok
        exact tableStep_update (.replace sid p hself hpeer)
      | forgetPair r' sid =>
        cases he
        exact tableStep_update (.forget sid)
  | inr e =>
    have hstep := (Service.step_right hstep).1
    have hshared : s'.shared = s'.onRight.shared := rfl
    have hprocs : s'.right = s'.onRight.procs := rfl
    rw [hshared]
    generalize s'.onRight = u at hstep hprocs ⊢
    cases Service.steps_of_step hstep with
    | spawn task => exact .same
    | @perform i ω c task done o k shared hi hact =>
      obtain ⟨T, hT, rfl⟩ := Option.map_eq_some_iff.mp hact
      have hrelay := of_any_some hi (Bool.and_eq_true_iff.mp hok).1
      have hi' : s'.right[i]? = some ⟨task, done ++ [⟨o, ω o⟩], k (ω o)⟩ := by
        rw [hprocs]
        exact List.getElem?_set_self (List.getElem?_eq_some_iff.mp hi).1
      exact tableStep_update (tableStep_onStream hi (of_decide_eq_true hrelay) rfl hi' rfl hT)
    | env he => cases he

theorem extends_of_step (hstep : (meshMachine cfg codec).step s e = some s') : s.Extends s' :=
  Service.extends_of_step (Machine.step_guard hstep).2

/-! ## The registry -/

/-- A connection that is about to be registered has authenticated. -/
theorem authenticated_of_register (hx : (meshMachine cfg codec).Exec h s)
    {g : Goroutine connection LinkTask} {k : Unit → ConnProc Unit} (hi : s.left[i]? = some g)
    (hrest : g.rest = .call (.registerAgent ac) k) :
    Authenticated cfg codec s g.request.relay ac := by
  have hsite := Service.site_left link_sites hx hi hrest
  cases hreq : g.request with
  | serve r id n =>
    rw [hreq] at hsite
    have hid := hsite.2 ac rfl
    exact ⟨i, g, n, hi, hid ▸ hreq, hsite.1.1 _ rfl⟩
  | control r ac' n =>
    rw [hreq] at hsite
    exact absurd rfl (hsite.registers ac)

/-- **What the registry of a relay has under a URI has authenticated under it**, on that
relay. -/
theorem registered_of_exec (hx : (meshMachine cfg codec).Exec h s)
    (hget : (s.shared r).agentConns.get uri = some ac) :
    ac.uri = uri ∧ Authenticated cfg codec s r ac := by
  induction hx generalizing r uri ac with
  | nil => cases hget
  | @snoc h s s' e hx hstep ih =>
    have hext := extends_of_step hstep
    have hold : (s.shared r).agentConns.get uri = some ac →
        ac.uri = uri ∧ Authenticated cfg codec s' r ac :=
      fun hget => (ih hget).imp_right fun hauth => hauth.mono hext
    have hT := tableStep_of_step hstep r
    generalize s'.shared r = T at hT hget
    cases hT with
    | same | record | replace | forget => exact hold hget
    | unregister uri' => exact hold (GoMap.of_get_del hget).1
    | @register i g ac' k hi hrelay hrest =>
      have hget : ((s.shared r).agentConns.set ac'.uri ac').get uri = some ac := hget
      rw [GoMap.get_set] at hget
      split_ifs at hget with huri
      · cases hget
        exact ⟨huri.symm, hrelay ▸ (authenticated_of_register hx hi hrest).mono hext⟩
      · exact hold hget

/-- A handler works on the tables of its relay. -/
theorem relay_of_right {g : Goroutine edge NetworkTask} {ev : EdgeEvent}
    {e : ServiceEvent edge NetworkTask ℕ Empty} {c : ℕ} (hok : s.admits (.inr e) = true)
    (hi : s.right[i]? = some g)
    (hperf : Service.Performs (⟨s.onRight, e, s'.onRight⟩ :
      ServiceStep edge (ℕ → RoutingTables) NetworkTask ℕ Empty) i c ev) :
    g.request.relay = c := by
  obtain ⟨ω, -, -, rfl, -⟩ := hperf
  have hrelay := of_any_some hi (Bool.and_eq_true_iff.mp hok).1
  exact of_decide_eq_true hrelay

/-- So does a goroutine of a connection. -/
theorem relay_of_left {g : Goroutine connection LinkTask} {ev : ConnEvent}
    {e : ServiceEvent connection LinkTask ℕ PairCall} {c : ℕ} (hok : s.admits (.inl e) = true)
    (hi : s.left[i]? = some g)
    (hperf : Service.Performs (⟨s.onLeft, e, s'.onLeft⟩ :
      ServiceStep connection (ℕ → RoutingTables) LinkTask ℕ PairCall) i c ev) :
    g.request.relay = c := by
  obtain ⟨ω, -, -, rfl, -⟩ := hperf
  have hrelay := of_any_some hi hok
  exact of_decide_eq_true hrelay

theorem of_read {c : Prop} [Decidable c] {T : RoutingTables} {f : RoutingTables → ℕ → RoutingTables}
    {S : ℕ → RoutingTables} (h : (if c then some T else none).map f = some S) : c := by
  split_ifs at h with hc
  · exact hc
  · cases h

/-- **What the registry has answered a handler** has authenticated under the URI asked for,
on the handler's relay. -/
theorem answered_right (hx : (meshMachine cfg codec).Exec h s) {g : Goroutine edge NetworkTask}
    (hi : s.right[i]? = some g) {ev : EdgeEvent} (hev : ev ∈ g.done)
    (hask : ev = ⟨.localAgent uri, some ac⟩ ∨ ev = ⟨.lookupAgent uri, some ac⟩) :
    ac.uri = uri ∧ Authenticated cfg codec s g.request.relay ac := by
  have hP := Service.remembers_right (P := fun s task (ev : EdgeEvent) => ∀ uri ac,
    ev = ⟨.localAgent uri, some ac⟩ ∨ ev = ⟨.lookupAgent uri, some ac⟩ →
    ac.uri = uri ∧ Authenticated cfg codec s task.relay ac) ?_ ?_ hx hi hev
  · exact hP uri ac hask
  · rintro s e s' ⟨h, hx⟩ hok i c g ev hi hperf hact hext uri ac hask
    cases relay_of_right hok hi hperf
    have hget : (s.shared g.request.relay).agentConns.get uri = some ac := by
      obtain rfl | rfl := hask
      · exact of_read hact
      · exact of_read hact
    exact (registered_of_exec hx hget).imp_right fun hauth => hauth.mono hext
  · intro s s' task ev hext hP uri ac hask
    exact (hP uri ac hask).imp_right fun hauth => hauth.mono hext

/-- **What it has answered a control loop** has, too. -/
theorem answered_left (hx : (meshMachine cfg codec).Exec h s)
    {g : Goroutine connection LinkTask} (hi : s.left[i]? = some g)
    (hev : ⟨.lookupAgent uri, some ac⟩ ∈ g.done) :
    ac.uri = uri ∧ Authenticated cfg codec s g.request.relay ac := by
  have hP := Service.remembers_left (P := fun s task (ev : ConnEvent) => ∀ uri ac,
    ev = ⟨.lookupAgent uri, some ac⟩ →
    ac.uri = uri ∧ Authenticated cfg codec s task.relay ac) ?_ ?_ hx hi hev
  · exact hP uri ac rfl
  · rintro s e s' ⟨h, hx⟩ hok i c g _ hi hperf hact hext uri ac rfl
    cases relay_of_left hok hi hperf
    exact (registered_of_exec hx (of_read hact)).imp_right fun hauth => hauth.mono hext
  · intro s s' task ev hext hP uri ac hask
    exact (hP uri ac hask).imp_right fun hauth => hauth.mono hext

/-! ## The pair table -/

/-- The agent `uri` has a half of the stream `sid` on relay `r`. -/
def Resumed (s : MeshState) (r : ℕ) (sid : UInt64) (uri : GoString) : Prop :=
  ∃ (i : ℕ) (g : Goroutine edge NetworkTask) (caller : AgentConn) (frame : Frame),
    s.right[i]? = some g ∧ g.request = .consumer r caller ∧ caller.uri = uri
      ∧ ⟨.parseFrame .consumer, .ok frame⟩ ∈ g.done ∧ frame.resumed? = some sid

theorem resumesStream_iff {ev : EdgeEvent} : resumesStream sid ev = true ↔
    ∃ frame, ev = ⟨.parseFrame .consumer, .ok frame⟩ ∧ frame.resumed? = some sid := by
  constructor
  · intro hev
    unfold resumesStream at hev
    split at hev
    next frame => exact ⟨frame, rfl, of_decide_eq_true hev⟩
    · cases hev
  · rintro ⟨frame, rfl, hsid⟩
    exact decide_eq_true hsid

theorem resumed_of_resumes (hres : s.resumes r sid uri = true) : Resumed s r sid uri := by
  obtain ⟨g, hg, hgo⟩ := List.any_eq_true.mp hres
  obtain ⟨hof, hany⟩ := Bool.and_eq_true_iff.mp hgo
  obtain ⟨ev, hev, hop⟩ := List.any_eq_true.mp hany
  obtain ⟨frame, rfl, hsid⟩ := resumesStream_iff.mp hop
  obtain ⟨i, hi⟩ := List.mem_iff_getElem?.mp hg
  cases hreq : g.request with
  | forwarded r' j =>
    rw [hreq] at hof
    cases hof
  | consumer r' caller =>
    rw [hreq] at hof
    obtain ⟨rfl, huri⟩ := of_decide_eq_true hof
    exact ⟨i, g, caller, frame, hi, hreq, huri, hev, hsid⟩

theorem Resumed.mono (hres : Resumed s r sid uri) (hext : s.Extends s') :
    Resumed s' r sid uri := by
  obtain ⟨i, g, caller, frame, hi, hreq, huri, hev, hsid⟩ := hres
  obtain ⟨g', hi', hreq', hdone⟩ := hext.right hi
  exact ⟨i, g', caller, frame, hi', hreq'.trans hreq, huri, hdone.subset hev, hsid⟩

/-- **The handler holds the row**: `recordPair` has accepted it, and the handler has not
called `forgetPair` since. -/
def HoldsRow (sid : UInt64) (p : StreamPair) (tr : List EdgeEvent) : Prop :=
  ∃ pre post, tr = pre ++ ⟨.recordPair sid p, true⟩ :: post ∧ ⟨.forgetPair sid, ()⟩ ∉ post

theorem HoldsRow.snoc {tr : List EdgeEvent} {ev : EdgeEvent} (hrow : HoldsRow sid p tr)
    (hev : ev ≠ ⟨.forgetPair sid, ()⟩) : HoldsRow sid p (tr ++ [ev]) := by
  obtain ⟨pre, post, rfl, hpost⟩ := hrow
  refine ⟨pre, post ++ [ev], by simp, fun hmem => ?_⟩
  obtain hmem | hmem := List.mem_append.mp hmem
  · exact hpost hmem
  · exact hev (List.mem_singleton.mp hmem).symm

/-- **Where a row of the pair table comes from.** The handler of a stream `sid` holds it, and
the stream goes from its caller to a provider on this relay. Or both agents have halves of
the stream `sid`, which have been spliced. -/
inductive RowOrigin (cfg : ℕ → EdgeConfig) (s : MeshState) (r : ℕ) (sid : UInt64)
    (p : StreamPair) : Prop
  | opened (i : ℕ) (g : Goroutine edge NetworkTask) (caller prov : AgentConn) (o : OpenStream)
      (hi : s.right[i]? = some g) (hreq : g.request = .consumer r caller)
      (hto : GoesTo (cfg r) caller prov o g.done) (hsid : sid = o.streamID)
      (hp : p = ⟨caller.uri, prov.uri⟩) (hholds : HoldsRow sid p g.done)
  | resumed (hself : Resumed s r sid p.consumerURI) (hpeer : Resumed s r sid p.providerURI)

/-- **A handler holds its row as long as the row is there**: if it calls `forgetPair`, the
row is deleted. -/
theorem holdsRow_of_step (hstep : (meshMachine cfg codec).step s e = some s')
    {g : Goroutine edge NetworkTask} (hi : s.right[i]? = some g) (hrelay : g.request.relay = r)
    (hsid : sid ≠ 0) (hrow : (s'.shared r).pairs.get sid = some p)
    (hholds : HoldsRow sid p g.done) :
    ∃ g', s'.right[i]? = some g' ∧ g'.request = g.request ∧ g.done <+: g'.done
      ∧ HoldsRow sid p g'.done := by
  obtain ⟨hok, hstep⟩ := Machine.step_guard hstep
  cases e with
  | inl e => exact ⟨g, (Service.step_left hstep).2 ▸ hi, rfl, List.prefix_rfl, hholds⟩
  | inr e =>
    obtain ⟨g', hi', hreq, hsame | ⟨c, ev, hgrow, hperf, hact⟩⟩ :=
      Service.advances (Service.step_right hstep).1 hi
    · exact ⟨g', hi', hreq, hsame ▸ List.prefix_rfl, hsame ▸ hholds⟩
    · refine ⟨g', hi', hreq, hgrow ▸ List.prefix_append _ _, hgrow ▸ hholds.snoc ?_⟩
      rintro rfl
      cases (relay_of_right hok hi hperf).symm.trans hrelay
      have hshared : Function.update s.shared r
          { s.shared r with pairs := forgetPair (s.shared r).pairs sid } = s'.shared :=
        Option.some.inj hact
      rw [← hshared, Function.update_self] at hrow
      exact (of_get_forgetPair hrow).2 hsid rfl

theorem RowOrigin.step (hstep : (meshMachine cfg codec).step s e = some s') (hsid : sid ≠ 0)
    (hrow : (s'.shared r).pairs.get sid = some p) (ho : RowOrigin cfg s r sid p) :
    RowOrigin cfg s' r sid p := by
  cases ho with
  | opened i g caller prov o hi hreq hto ho hp hholds =>
    obtain ⟨g', hi', hreq', hdone, hholds'⟩ :=
      holdsRow_of_step hstep hi (congrArg NetworkTask.relay hreq) hsid hrow hholds
    exact .opened i g' caller prov o hi' (hreq'.trans hreq) (hto.mono hdone) ho hp hholds'
  | resumed hself hpeer =>
    have hext := extends_of_step hstep
    exact .resumed (hself.mono hext) (hpeer.mono hext)

/-- A row that a handler has just recorded. -/
theorem rowOrigin_of_record (hx : (meshMachine cfg codec).Exec h s)
    (hstep : (meshMachine cfg codec).step s e = some s') {g g' : Goroutine edge NetworkTask}
    {k : Bool → Handler Unit} (hi : s.right[i]? = some g)
    (hrest : g.rest = .call (.recordPair sid p) k) (hi' : s'.right[i]? = some g')
    (hdone : g'.done = g.done ++ [⟨.recordPair sid p, true⟩]) :
    RowOrigin cfg s' g.request.relay sid p := by
  have hsite := Service.site_right stream_sites hx hi hrest
  obtain ⟨g'', hi'', hreq', hext⟩ := (extends_of_step hstep).right hi
  cases hi''.symm.trans hi'
  cases hreq : g.request with
  | consumer r caller =>
    rw [hreq] at hsite hreq'
    obtain ⟨o, prov, hto, hsid, hp⟩ := hsite
    exact .opened i g' caller prov o hi' hreq' (hto.mono hext) hsid hp ⟨g.done, [], hdone, nofun⟩
  | forwarded r j =>
    rw [hreq] at hsite
    exact hsite.elim

/-- **Every row of the pair table has its origin.** -/
theorem rows_of_exec (hx : (meshMachine cfg codec).Exec h s)
    (hrow : (s.shared r).pairs.get sid = some p) : sid ≠ 0 ∧ RowOrigin cfg s r sid p := by
  induction hx generalizing r sid p with
  | nil => cases hrow
  | @snoc h s s' e hx hstep ih =>
    have hnow := hrow
    have hold : (s.shared r).pairs.get sid = some p → sid ≠ 0 ∧ RowOrigin cfg s' r sid p :=
      fun hrow => ⟨(ih hrow).1, (ih hrow).2.step hstep (ih hrow).1 hnow⟩
    have hT := tableStep_of_step hstep r
    generalize s'.shared r = T at hT hrow
    cases hT with
    | same | register | unregister => exact hold hrow
    | @record i g g' sid' p' k hi hrelay hrest hi' hdone =>
      obtain hrow | ⟨hsid, rfl, rfl, haccepted⟩ := of_get_recordPair hrow
      · exact hold hrow
      · rw [haccepted] at hdone
        exact ⟨hsid, hrelay ▸ rowOrigin_of_record hx hstep hi hrest hi' hdone⟩
    | replace sid' p' hself hpeer =>
      obtain hrow | ⟨hsid, rfl, rfl⟩ := of_get_replacePair hrow
      · exact hold hrow
      · have hext := extends_of_step hstep
        exact ⟨hsid, .resumed ((resumed_of_resumes hself).mono hext)
          ((resumed_of_resumes hpeer).mono hext)⟩
    | forget sid' => exact hold (of_get_forgetPair hrow).1

/-! ## What the tables had -/

/-- A goroutine of a connection is answered by the tables of its relay. -/
theorem onLink_of_performs {u : MeshStep} {task : LinkTask} {pre : List ConnEvent} {ev : ConnEvent}
    (hx : (meshMachine cfg codec).Exec h s) (hu : u ∈ h)
    (hperf : (linkService cfg codec).PerformsAfter u i task pre ev) :
    ((u.pre.shared task.relay).onLink ev).map (Function.update u.pre.shared task.relay)
      = some u.post.shared := by
  obtain ⟨e, c, g, he, hi, rfl, -, hperf, hact⟩ := hperf
  have hok := hx.guard_of_mem hu
  rw [he] at hok
  cases relay_of_left hok hi hperf
  exact hact

end MeshState
