import OutRelay.ForwardRound
import OutRelay.Handouts
import OutRelay.ResumeSplice

/-!
# The relocation invariant

When a relay dies, the two agents of a stream meet again because both go through
the same list of successors. The relay hands its list out in `HELLO_ACK`, once
per connection, and again per stream, in `INCOMING_STREAM`, `STREAM_READY` and
`ALLOC_GRANTED`; what counts for an agent is what it was told last. The list
changes while the relay runs (`SetSuccessors`), so the two agents of a stream
hold one list only if the relay sees to it.

The machine below runs the parts of the relay that read the list: connections,
which are acknowledged before they are registered; the handlers of opened and of
forwarded streams; the drivers of resumed forward-mode streams; and the handlers
of resumed halves, which read and send no list. A stream goes by its id: its
agents hold what they were last told under this id, whoever told them, and
otherwise what their connections were acknowledged with.

Wherever bytes can flow, the two agents agree exactly if one list was in force at
the reads behind what they hold (`lists_agree_iff`). There are three ways to miss
it. A resumed stream is spliced with whatever its agents hold. An opened stream
that is spliced has its list read twice, and the provider gets the second one only
where it is found in the registry. And of two handlers or drivers that serve one
id at the same time, each may be the last to tell one agent (`Undisturbed`).

The number of `SetSuccessors` calls before a read is kept with what was read.
That, `sets` and `handed` are not in the source.
-/

/-- The relay with its handlers and the address of its plane. -/
structure RelocationConfig extends EdgeConfig where
  endpoint : GoString

def RelocationConfig.toForwardConfig (cfg : RelocationConfig) : ForwardConfig :=
  { toRelayConfig := cfg.toRelayConfig, endpoint := cfg.endpoint }

/-- A successor list as it was handed out: read after `stamp` calls of
`SetSuccessors`. -/
structure Handout where
  list : List GoString
  stamp : ℕ

/-- A handler in progress: of an `OPEN_STREAM` of `client`, or of a stream from a
peer relay. `trace` is what it has performed, `rest` what is left of it, and
`reads` has the stamps of its reads of the list. -/
structure StreamTask where
  client : Option (AgentConn × UInt64)
  trace : List EdgeEvent
  rest : Handler Unit
  reads : List ℕ

/-- The relay with its forward-mode streams and resumed halves; the lists that
have been set; the connections that have been acknowledged and are yet to be
registered, and the lists the registered ones were acknowledged with; the
connection of each resumed half; the handlers; for each driver the stamp of its
read; and the list last sent to an agent under a stream id. -/
structure RelocationState where
  forward : ForwardState
  resume : ResumeState
  sets : List (List GoString)
  acked : List (AgentURI × Handout)
  hello : List Handout
  origin : List ℕ
  tasks : List StreamTask
  rounds : GoMap ℕ ℕ
  handed : GoMap (GoString × UInt64) Handout

/-- A step of one goroutine, or a call of `SetSuccessors`. -/
inductive RelocationEvent
  | setSuccessors (endpoints : List GoString)
  | helloAck (uri : AgentURI)
  | register (j : ℕ)
  | forward (e : ForwardEvent)
  | openStream (ac : ℕ) (o : OpenStream)
  | forwarded
  | task (k : ℕ) (ω : ∀ o : EdgeOp, o.Ans)
  | resumeHalf (ac : ℕ) (kind : HalfKind) (id myPosition peerAckPosition : UInt64)
  | resume (e : ResumeEvent)

/-- The events of the forwarding part that are not events of their own here. The
handlers of opened streams are tasks. -/
def ForwardEvent.isOwn : ForwardEvent → Bool
  | .relay (.register _) | .setSuccessors _ | .openForward _ _ | .openStep _ _ => false
  | _ => true

/-- The same for the resumed halves. -/
def ResumeEvent.isOwn : ResumeEvent → Bool
  | .submit _ _ _ _ _ => false
  | _ => true

/-- The next operation of a handler. -/
def StreamTask.next (g : StreamTask) : Option EdgeOp :=
  match g.rest with
  | .ret _ => none
  | .call o _ => some o

/-- The handler after an operation, with `rest` left of it, where `n` is the stamp
of a read. -/
def StreamTask.after (g : StreamTask) (ev : EdgeEvent) (rest : Handler Unit) (n : ℕ) :
    StreamTask :=
  { g with
    trace := g.trace ++ [ev]
    rest := rest
    reads := match Handler.listEvent? ev with
      | some (.read _) => g.reads ++ [n]
      | _ => g.reads }

namespace RelocationState

/-- What a read of the list returns. -/
def current (s : RelocationState) : Handout := ⟨s.forward.successors, s.sets.length⟩

/-- **What the relay answers a handler.** The list and the registry are the
relay's own, and control writes succeed; everything else is up to `ω`. -/
def answer (s : RelocationState) (ω : ∀ o : EdgeOp, o.Ans) : ∀ o : EdgeOp, o.Ans
  | .successors => s.forward.successors
  | .lookupAgent uri => (s.forward.relay.lookupAgent uri).map (fun i => ⟨i, uri⟩)
  | .localAgent uri => (s.forward.relay.lookupAgent uri).map (fun i => ⟨i, uri⟩)
  | .writeCtrl _ _ => .ok ()
  | o => ω o

/-- What agents have been told, after an operation of the handler `g`. -/
def noteTask (s : RelocationState) (g : StreamTask) (ev : EdgeEvent) :
    GoMap (GoString × UInt64) Handout :=
  match Handler.listEvent? ev with
  | some (.handed uri streamID l) => s.handed.set (uri, streamID) ⟨l, g.reads.getLast?.getD 0⟩
  | _ => s.handed

/-- What the next step of the driver at `i` reads or sends. -/
def noteDriver (s : RelocationState) (i : ℕ) : RelocationState :=
  match s.forward.halves[i]? with
  | none => s
  | some a =>
    match a.driver with
    | .successors _ _ _ => { s with rounds := s.rounds.set i s.sets.length }
    | .writeSelf _ _ _ resumeRelays =>
      { s with handed :=
          s.handed.set (a.agentURI.val, a.id) ⟨resumeRelays, (s.rounds.get i).getD 0⟩ }
    | .writePeer p _ _ resumeRelays =>
      match s.forward.halves[p]? with
      | none => s
      | some b =>
        { s with handed :=
            s.handed.set (b.agentURI.val, a.id) ⟨resumeRelays, (s.rounds.get i).getD 0⟩ }
    | _ => s

/-- The same for every step of the forwarding part. -/
def noteForward (s : RelocationState) : ForwardEvent → RelocationState
  | .driver i _ => s.noteDriver i
  | _ => s

def step (cfg : RelocationConfig) (s : RelocationState) : RelocationEvent → Option RelocationState
  | .setSuccessors endpoints =>
    (s.forward.step cfg.toForwardConfig (.setSuccessors endpoints)).map (fun f =>
      { s with forward := f, sets := s.sets ++ [endpoints] })
  | .helloAck uri => some { s with acked := s.acked ++ [(uri, s.current)] }
  | .register j =>
    (s.acked[j]?).bind (fun x =>
      (s.forward.step cfg.toForwardConfig (.relay (.register x.fst))).map (fun f =>
        { s with forward := f, acked := s.acked.eraseIdx j, hello := s.hello ++ [x.snd] }))
  | .forward e =>
    if e.isOwn then
      (s.forward.step cfg.toForwardConfig e).map (fun f => { s.noteForward e with forward := f })
    else none
  | .openStream ac o =>
    (s.forward.relay.loopAgent ac).map (fun uri =>
      { s with tasks := s.tasks ++ [⟨some (⟨ac, uri.val⟩, o.streamID), [],
          Handler.handleOpenStream cfg.toEdgeConfig ⟨ac, uri.val⟩ o, []⟩] })
  | .forwarded =>
    some { s with tasks := s.tasks ++ [⟨none, [],
      Handler.handleForwardedStream cfg.toEdgeConfig, []⟩] }
  | .task k ω =>
    (s.tasks[k]?).bind (fun g =>
      match g.rest with
      | .ret _ => none
      | .call o f => some { s with
          tasks := s.tasks.set k (g.after ⟨o, s.answer ω o⟩ (f (s.answer ω o)) s.sets.length)
          handed := s.noteTask g ⟨o, s.answer ω o⟩ })
  | .resumeHalf ac kind id myPosition peerAckPosition =>
    (s.forward.relay.loopAgent ac).bind (fun uri =>
      (s.resume.step (.submit kind id uri.val myPosition peerAckPosition)).map (fun r =>
        { s with resume := r, origin := s.origin ++ [ac] }))
  | .resume e =>
    if e.isOwn then (s.resume.step e).map (fun r => { s with resume := r }) else none

end RelocationState

/-- The relay from its start, with no successors. -/
def relocationMachine (cfg : RelocationConfig) (idleTTL pendingTTL start : Time) :
    Machine RelocationState RelocationEvent where
  init :=
    { forward := (forwardMachine cfg.toForwardConfig idleTTL pendingTTL start).init
      resume := resumeMachine.init, sets := [], acked := [], hello := [], origin := [],
      tasks := [], rounds := ∅, handed := ∅ }
  step := RelocationState.step cfg

/-! ## Agreement -/

/-- The peer with which the next step of the handler of a half starts a splice:
after the echoes of a `STREAM_RESUME`, and at once for a `MIGRATE_TO_RELAY`. -/
def Half.startsSplice (a : Half) : Option ℕ :=
  match a.handler, a.got with
  | .echoPeer p, _ => some p
  | .resolve, some (some p) => if a.splicer ∧ a.kind = .migrate then some p else none
  | _, _ => none

/-- Who sends an agent the list of a stream: the handler of an `OPEN_STREAM` or of
a stream from a peer relay, or the driver of a resumed forward-mode stream. -/
inductive Source
  | handler (k : ℕ)
  | driver (i : ℕ)

namespace RelocationState

/-- The list in force after `n` calls of `SetSuccessors`. -/
def inForce (s : RelocationState) (n : ℕ) : List GoString := ((s.sets.take n).getLast?).getD []

/-- **The list that an agent holds** for the stream `sid`: what it was last sent
under this id, and otherwise what its connection was acknowledged with. -/
def held (s : RelocationState) (x : AgentConn) (sid : UInt64) : Option Handout :=
  (s.handed.get (x.uri, sid)).or s.hello[x.id]?

/-- **The step lets bytes flow** between two agents, on the stream `sid`: a handler
splices or drains an opened stream, a driver sends the second grant of its round,
or the handler of a resumed half starts its splice. -/
inductive Flows (s : RelocationState) :
    RelocationEvent → AgentConn → AgentConn → UInt64 → Prop
  | opened {k : ℕ} {ω : ∀ o : EdgeOp, o.Ans} {g : StreamTask} {caller prov : AgentConn}
      {sid : UInt64} (hg : s.tasks[k]? = some g) (hclient : g.client = some (caller, sid))
      (hnext : g.next = some (.splice .consumer (.provider prov))
        ∨ g.next = some (.drain .consumer (.provider prov))) :
      Flows s (.task k ω) caller prov sid
  | granted {i p : ℕ} {now : Time} {a b : ForwardHalf} {x y : UInt32} {rr : List GoString}
      (hi : s.forward.halves[i]? = some a) (hpc : a.driver = .writePeer p x y rr)
      (hp : s.forward.halves[p]? = some b) :
      Flows s (.forward (.driver i now)) ⟨a.ac, a.agentURI.val⟩ ⟨b.ac, b.agentURI.val⟩ a.id
  | resumed {i p c d : ℕ} {a b : Half} (hi : s.resume.halves[i]? = some a)
      (hstart : a.startsSplice = some p) (hp : s.resume.halves[p]? = some b)
      (hc : s.origin[i]? = some c) (hd : s.origin[p]? = some d) :
      Flows s (.resume (.handler i)) ⟨c, a.uri⟩ ⟨d, b.uri⟩ a.id

/-- **The two agents of a stream hold one list when bytes can flow.** -/
def Agrees (t : Transition RelocationState RelocationEvent) : Prop :=
  ∀ x y sid, t.pre.Flows t.ev x y sid → ∃ l,
    (t.post.held x sid).map Handout.list = some l ∧ (t.post.held y sid).map Handout.list = some l

/-- **The list is steady where the relay relies on it.** Where a step lets bytes
flow, the list in force at the read behind what the one agent holds is that in
force at the read behind what the other holds. The driver that sends a second
grant is about to replace what the second agent holds: there it is its own read
that counts. -/
def Steady (s : RelocationState) : RelocationEvent → Prop
  | .forward (.driver i now) => ∀ x y sid, s.Flows (.forward (.driver i now)) x y sid →
      x.uri ≠ y.uri → ∀ m n, (s.held x sid).map Handout.stamp = some m →
      s.rounds.get i = some n → s.inForce m = s.inForce n
  | e => ∀ x y sid, s.Flows e x y sid → ∀ m n, (s.held x sid).map Handout.stamp = some m →
      (s.held y sid).map Handout.stamp = some n → s.inForce m = s.inForce n

/-- **Who sends lists under a stream id**: a handler that has sent one, and the
driver of a resumed stream that has read the list it is to send. -/
def Sends (s : RelocationState) (sid : UInt64) : Source → Prop
  | .handler k => ∃ g uri l, s.tasks[k]? = some g ∧ .handed uri sid l ∈ Handler.listEvents g.trace
  | .driver i => ∃ a n, s.forward.halves[i]? = some a ∧ a.id = sid ∧ s.rounds.get i = some n

/-- Nobody else sends lists under the id. -/
def Sole (s : RelocationState) (sid : UInt64) (src : Source) : Prop :=
  ∀ src', s.Sends sid src' → src' = src

/-- **The stream is served by one, and its list does not change meanwhile.** A
handler that splices or drains the stream it has opened is the only one that sends
lists under its id; and if it has not found its provider, the list that was in
force at its first read is in force at its second. A driver is the only one that
sends lists under the id of its stream, and needs no more: it reads once. Under
the id of a resumed stream that is spliced nobody has sent a list, and the one in
force when the connection of the one agent was acknowledged was in force for the
other. -/
def Undisturbed (s : RelocationState) : RelocationEvent → Prop
  | .task k _ => ∀ g caller prov sid, s.tasks[k]? = some g → g.client = some (caller, sid) →
      (g.next = some (.splice .consumer (.provider prov))
        ∨ g.next = some (.drain .consumer (.provider prov))) →
      s.Sole sid (.handler k) ∧ ((⟨.lookupAgent prov.uri, none⟩ : EdgeEvent) ∈ g.trace →
        ∀ m n, g.reads = [m, n] → s.inForce m = s.inForce n)
  | .forward (.driver i _) => ∀ a p x y rr, s.forward.halves[i]? = some a →
      a.driver = .writePeer p x y rr → s.Sole a.id (.driver i)
  | .resume (.handler i) => ∀ a p c d, s.resume.halves[i]? = some a →
      a.startsSplice = some p → s.origin[i]? = some c → s.origin[p]? = some d →
      (∀ src, ¬ s.Sends a.id src) ∧ ∀ x y, s.hello[c]? = some x → s.hello[d]? = some y →
        s.inForce x.stamp = s.inForce y.stamp
  | _ => True

end RelocationState

theorem ForwardEvent.registers_of_isOwn {e : ForwardEvent} (h : e.isOwn = true) :
    e.registers = 0 := by
  cases e with
  | relay re =>
    cases re with
    | register u => cases h
    | _ => rfl
  | _ => rfl

theorem ForwardEvent.ne_setSuccessors_of_isOwn {e : ForwardEvent} (h : e.isOwn = true)
    (l : List GoString) : e ≠ .setSuccessors l := by
  rintro rfl
  cases h

theorem ResumeEvent.ne_submit_of_isOwn {e : ResumeEvent} (h : e.isOwn = true) (kind : HalfKind)
    (id : UInt64) (uri : GoString) (my ack : UInt64) : e ≠ .submit kind id uri my ack := by
  rintro rfl
  cases h

namespace RelocationState

variable {cfg : RelocationConfig} {s s' : RelocationState} {e : RelocationEvent} {x : Handout}
  {g : StreamTask}

/-! ## Every list that is held was in force when it was read -/

/-- The list is the one that was in force at its stamp. -/
def Valid (s : RelocationState) (x : Handout) : Prop :=
  x.stamp ≤ s.sets.length ∧ x.list = s.inForce x.stamp

/-- A handler in progress: what its agents have been told, that the relay has
been honest, and that what it has read was in force then. -/
structure TaskOK (s : RelocationState) (g : StreamTask) : Prop where
  sited : ∀ caller sid, g.client = none ∨ g.client = some (caller, sid) →
    Handler.Sited caller sid (Handler.listEvents g.trace) g.rest
  honest : ∀ ev ∈ g.trace, Handler.Honest ev
  reads : Handler.reads (Handler.listEvents g.trace) = g.reads.map s.inForce
  stamps : ∀ n ∈ g.reads, n ≤ s.sets.length

/-- **The invariant**: every list read or held is valid, and every half and
driver has the connection or the read that its list goes back to. -/
structure ListInv (s : RelocationState) : Prop where
  current : s.Valid s.current
  acked : ∀ x ∈ s.acked, s.Valid x.snd
  hello : ∀ x ∈ s.hello, s.Valid x
  handed : ∀ key x, s.handed.get key = some x → s.Valid x
  links : s.hello.length = s.forward.relay.links.length
  origin : s.origin.length = s.resume.halves.length
  conns : ∀ c ∈ s.origin, c < s.hello.length
  tasks : ∀ g ∈ s.tasks, s.TaskOK g
  rounds : ∀ (i : ℕ) (a : ForwardHalf) (rr : List GoString), s.forward.halves[i]? = some a →
    a.driver.list? = some rr → ∃ n, s.rounds.get i = some n ∧ s.Valid ⟨rr, n⟩

/-- Later calls of `SetSuccessors` do not change what was in force before. -/
theorem inForce_of_append {n : ℕ} {t : List (List GoString)} (hs : s'.sets = s.sets ++ t)
    (hn : n ≤ s.sets.length) : s'.inForce n = s.inForce n := by
  unfold inForce
  rw [hs, List.take_append_of_le_length hn]

theorem Valid.append {t : List (List GoString)} (h : s.Valid x) (hs : s'.sets = s.sets ++ t) :
    s'.Valid x := by
  refine ⟨?_, h.2.trans (inForce_of_append hs h.1).symm⟩
  rw [hs, List.length_append]
  exact Nat.le_add_right_of_le h.1

theorem TaskOK.append {t : List (List GoString)} (h : s.TaskOK g) (hs : s'.sets = s.sets ++ t) :
    s'.TaskOK g := by
  refine ⟨h.sited, h.honest, ?_, fun n hn => ?_⟩
  · rw [h.reads]
    exact List.map_congr_left fun n hn => (inForce_of_append hs (h.stamps n hn)).symm
  · rw [hs, List.length_append]
    exact Nat.le_add_right_of_le (h.stamps n hn)

theorem TaskOK.same (h : s.TaskOK g) (hs : s'.sets = s.sets) : s'.TaskOK g :=
  h.append (hs.trans (List.append_nil _).symm)

/-! ### Handlers -/

theorem honest_answer {ω : ∀ o : EdgeOp, o.Ans} (o : EdgeOp) :
    Handler.Honest ⟨o, s.answer ω o⟩ := by
  cases o with
  | lookupAgent uri =>
    show Handler.Honest
      ⟨.lookupAgent uri, (s.forward.relay.lookupAgent uri).map (fun i => ⟨i, uri⟩)⟩
    cases s.forward.relay.lookupAgent uri with
    | none => trivial
    | some i => exact rfl
  | _ => trivial

/-- A handler reads the relay's own list. -/
theorem read_answer {ω : ∀ o : EdgeOp, o.Ans} {o : EdgeOp} {l : List GoString}
    (h : Handler.listEvent? ⟨o, s.answer ω o⟩ = some (.read l)) : l = s.forward.successors := by
  have hev := Handler.eq_of_read h
  obtain rfl : o = .successors := congrArg Interface.Event.op hev
  cases hev
  rfl

/-- **A step of a handler** keeps what is known of it. -/
theorem TaskOK.after {o : EdgeOp} {f : o.Ans → Handler Unit} {ω : ∀ o : EdgeOp, o.Ans}
    (h : s.TaskOK g) (hcur : s.Valid s.current) (hrest : g.rest = .call o f) :
    s.TaskOK (g.after ⟨o, s.answer ω o⟩ (f (s.answer ω o)) s.sets.length) := by
  have hhonest : Handler.Honest ⟨o, s.answer ω o⟩ := honest_answer o
  refine ⟨fun caller sid hclient => ?_, ?_, ?_, ?_⟩
  · have hs := h.sited caller sid hclient
    rw [hrest] at hs
    show Handler.Sited caller sid (Handler.listEvents (g.trace ++ [_])) _
    rw [Handler.listEvents_append]
    exact hs.next hhonest
  · exact List.forall_mem_append.mpr ⟨h.honest, List.forall_mem_singleton.mpr hhonest⟩
  · show Handler.reads (Handler.listEvents (g.trace ++ [_])) = _
    rw [Handler.listEvents_append, Handler.reads_append, h.reads]
    unfold StreamTask.after Handler.listEvents
    cases hev : Handler.listEvent? ⟨o, s.answer ω o⟩ with
    | none => simp [hev, Handler.reads]
    | some le =>
      cases le with
      | read l =>
        obtain rfl := read_answer hev
        have hnow : s.forward.successors = s.inForce s.sets.length := hcur.2
        simp [hev, Handler.reads, Handler.ListEvent.read?, hnow]
      | lookup uri ac => simp [hev, Handler.reads, Handler.ListEvent.read?]
      | handed uri streamID l => simp [hev, Handler.reads, Handler.ListEvent.read?]
  · unfold StreamTask.after
    dsimp only
    split
    · exact List.forall_mem_append.mpr ⟨h.stamps, List.forall_mem_singleton.mpr le_rfl⟩
    · exact h.stamps

/-- **A step of a handler** hands out a valid list. -/
theorem noteTask_valid {o : EdgeOp} {f : o.Ans → Handler Unit} {r : o.Ans}
    {key : GoString × UInt64} (I : s.ListInv) (h : s.TaskOK g) (hrest : g.rest = .call o f)
    (hx : (s.noteTask g ⟨o, r⟩).get key = some x) : s.Valid x := by
  have hread : ∀ {uri streamID l}, Handler.listEvent? ⟨o, r⟩ = some (.handed uri streamID l) →
      s.Valid ⟨l, g.reads.getLast?.getD 0⟩ := by
    intro uri streamID l hev
    obtain ⟨caller, sid, hclient⟩ : ∃ caller sid,
        g.client = none ∨ g.client = some (caller, sid) := by
      cases g.client with
      | none => exact ⟨⟨0, []⟩, 0, Or.inl rfl⟩
      | some c => exact ⟨c.fst, c.snd, Or.inr rfl⟩
    have hs := h.sited caller sid hclient
    rw [hrest] at hs
    have hlast := hs.site.getLast?_reads hev
    rw [h.reads, List.getLast?_map] at hlast
    obtain ⟨n, hn, rfl⟩ := Option.map_eq_some_iff.mp hlast
    rw [hn]
    exact ⟨h.stamps n (List.mem_of_getLast? hn), rfl⟩
  unfold noteTask at hx
  split at hx
  · rename_i hev
    rw [GoMap.get_set] at hx
    split_ifs at hx
    · cases hx
      exact hread hev
    · exact I.handed key x hx
  · exact I.handed key x hx

/-! ### Drivers -/

/-- **What a step of the forwarding part notes**: a driver reads the list, a
driver sends the list it has read – to its own agent first –, or nothing. -/
inductive Notes (s : RelocationState) :
    ForwardEvent → GoMap ℕ ℕ → GoMap (GoString × UInt64) Handout → Prop
  | still {fe : ForwardEvent}
      (hno : ∀ i now a p x y, fe = .driver i now → s.forward.halves[i]? = some a →
        a.driver ≠ .successors p x y ∧ ∀ rr, a.driver ≠ .writeSelf p x y rr) :
      Notes s fe s.rounds s.handed
  | read {i : ℕ} {now : Time} {a : ForwardHalf} {p : ℕ} {x y : UInt32}
      (hi : s.forward.halves[i]? = some a) (hpc : a.driver = .successors p x y) :
      Notes s (.driver i now) (s.rounds.set i s.sets.length) s.handed
  | sent {i : ℕ} {now : Time} {a : ForwardHalf} {rr : List GoString} {uri : GoString}
      (hi : s.forward.halves[i]? = some a) (hl : a.driver.list? = some rr)
      (hself : ∀ p x y rr', a.driver = .writeSelf p x y rr' → uri = a.agentURI.val) :
      Notes s (.driver i now) s.rounds
        (s.handed.set (uri, a.id) ⟨rr, (s.rounds.get i).getD 0⟩)

theorem exists_notes (fe : ForwardEvent) : ∃ rounds handed,
    s.noteForward fe = { s with rounds := rounds, handed := handed }
      ∧ s.Notes fe rounds handed := by
  cases fe with
  | driver i now =>
    cases hi : s.forward.halves[i]? with
    | none =>
      refine ⟨_, _, ?_, .still fun j now' a p x y hfe hj => ?_⟩
      · simp only [noteForward, noteDriver, hi]
      · cases hfe
        cases hi.symm.trans hj
    | some a =>
      cases hh : a.driver
      case successors q x y =>
        refine ⟨_, _, ?_, .read hi hh⟩
        simp only [noteForward, noteDriver, hi, hh]
      case writeSelf q x y rr =>
        refine ⟨_, _, ?_, .sent hi (by rw [hh]; rfl) fun p x y rr' _ => rfl⟩
        simp only [noteForward, noteDriver, hi, hh]
      case writePeer q x y rr =>
        cases hq : s.forward.halves[q]? with
        | none =>
          refine ⟨_, _, ?_, .still fun j now' b p x y hfe hj => ?_⟩
          · simp only [noteForward, noteDriver, hi, hh, hq]
          · cases hfe
            cases hi.symm.trans hj
            rw [hh]
            exact ⟨nofun, fun rr => nofun⟩
        | some b =>
          refine ⟨_, s.handed.set (b.agentURI.val, a.id) _, ?_, .sent hi (by rw [hh]; rfl)
            fun p x y rr' hself => ?_⟩
          · simp only [noteForward, noteDriver, hi, hh, hq]
          · rw [hh] at hself
            cases hself
      all_goals
        refine ⟨_, _, ?_, .still fun j now' b p x y hfe hj => ?_⟩
        · simp only [noteForward, noteDriver, hi, hh]
        · cases hfe
          cases hi.symm.trans hj
          rw [hh]
          exact ⟨nofun, fun rr => nofun⟩
  | _ => exact ⟨_, _, rfl, .still fun i now a p x y hfe => nomatch hfe⟩

/-- A driver sends a list that was in force when it read it. -/
theorem Notes.valid {fe : ForwardEvent} {rounds : GoMap ℕ ℕ}
    {handed : GoMap (GoString × UInt64) Handout} (hn : s.Notes fe rounds handed) (I : s.ListInv)
    (key : GoString × UInt64) (x : Handout) (hx : handed.get key = some x) : s.Valid x := by
  cases hn with
  | still => exact I.handed key x hx
  | read => exact I.handed key x hx
  | @sent i now a rr uri hi hl hself =>
    rw [GoMap.get_set] at hx
    split_ifs at hx
    · cases hx
      obtain ⟨n, hn, hvalid⟩ := I.rounds i a rr hi hl
      rw [hn]
      exact hvalid
    · exact I.handed key x hx

/-- The lists of the drivers after a step of the forwarding part. -/
theorem ListInv.rounds_step {fe : ForwardEvent} {f : ForwardState} {rounds : GoMap ℕ ℕ}
    {handed : GoMap (GoString × UInt64) Handout} (I : s.ListInv) (M : s.forward.MatchInv)
    (hn : s.Notes fe rounds handed) (hf : s.forward.step cfg.toForwardConfig fe = some f)
    (i : ℕ) (c : ForwardHalf) (rr : List GoString) (hi : f.halves[i]? = some c)
    (hl : c.driver.list? = some rr) : ∃ n, rounds.get i = some n ∧ s.Valid ⟨rr, n⟩ := by
  rcases ForwardState.list?_step M hf hi hl with
    ⟨a, ha, hal⟩ | ⟨now, a, p, x, y, hfe, ha, hpc, rfl⟩
  · obtain ⟨n, hget, hvalid⟩ := I.rounds i a rr ha hal
    refine ⟨n, ?_, hvalid⟩
    cases hn with
    | still => exact hget
    | sent => exact hget
    | @read j now b p x y hj hpc =>
      refine (GoMap.get_set_of_ne _ _ fun hij => ?_).trans hget
      subst hij
      cases hj.symm.trans ha
      rw [hpc] at hal
      cases hal
  · refine ⟨s.sets.length, ?_, I.current⟩
    cases hn with
    | still hno => exact absurd hpc (hno i now a p x y hfe ha).1
    | read =>
      cases hfe
      exact GoMap.get_set_self _ _ _
    | sent hj hl' =>
      cases hfe
      cases hj.symm.trans ha
      rw [hpc] at hl'
      cases hl'

/-! ### Every step keeps the invariant -/

theorem listInv_setSuccessors {endpoints : List GoString} (I : s.ListInv)
    (hstep : s.step cfg (.setSuccessors endpoints) = some s') : s'.ListInv := by
  obtain ⟨f, hf, rfl⟩ := Option.map_eq_some_iff.mp hstep
  unfold ForwardState.step at hf
  split_ifs at hf
  cases hf
  have hset : ∀ {x : Handout}, s.Valid x → ({ s with
      forward := { s.forward with successors := endpoints }
      sets := s.sets ++ [endpoints] } : RelocationState).Valid x := fun hx => hx.append rfl
  refine ⟨⟨le_rfl, ?_⟩, fun x hx => hset (I.acked x hx), fun x hx => hset (I.hello x hx),
    fun key x hx => hset (I.handed key x hx), I.links, I.origin, I.conns,
    fun g hg => (I.tasks g hg).append rfl, fun i a rr hi hl => ?_⟩
  · show endpoints = ((s.sets ++ [endpoints]).take (s.sets ++ [endpoints]).length).getLast?.getD []
    rw [List.take_length, List.getLast?_concat]
    rfl
  · obtain ⟨n, hn, hvalid⟩ := I.rounds i a rr hi hl
    exact ⟨n, hn, hset hvalid⟩

theorem listInv_register {j : ℕ} (I : s.ListInv) (M : s.forward.MatchInv)
    (hstep : s.step cfg (.register j) = some s') : s'.ListInv := by
  obtain ⟨x, hx, hstep⟩ := Option.bind_eq_some_iff.mp hstep
  obtain ⟨f, hf, rfl⟩ := Option.map_eq_some_iff.mp hstep
  have hquiet : s.Notes (.relay (.register x.fst)) s.rounds s.handed :=
    .still fun i now a p x y hfe => nomatch hfe
  refine ⟨⟨le_rfl, ?_⟩, fun y hy => I.acked y (List.mem_of_mem_eraseIdx hy), ?_, I.handed, ?_,
    I.origin, fun c hc => ?_, fun g hg => (I.tasks g hg).same rfl, I.rounds_step M hquiet hf⟩
  · exact (ForwardState.successors_step (fun _ => ForwardEvent.noConfusion) hf).trans I.current.2
  · exact List.forall_mem_append.mpr ⟨I.hello,
      List.forall_mem_singleton.mpr (I.acked x (List.mem_of_getElem? hx))⟩
  · show (s.hello ++ [x.snd]).length = f.relay.links.length
    rw [ForwardState.links_length_step hf, ← I.links]
    exact List.length_append
  · show c < (s.hello ++ [x.snd]).length
    rw [List.length_append]
    exact Nat.lt_add_right _ (I.conns c hc)

theorem listInv_forward {fe : ForwardEvent} (I : s.ListInv) (M : s.forward.MatchInv)
    (hstep : s.step cfg (.forward fe) = some s') : s'.ListInv := by
  simp only [step] at hstep
  split_ifs at hstep with hown
  obtain ⟨f, hf, rfl⟩ := Option.map_eq_some_iff.mp hstep
  obtain ⟨rounds, handed, heq, hn⟩ := exists_notes fe
  rw [heq]
  refine ⟨⟨le_rfl, ?_⟩, I.acked, I.hello, hn.valid I, ?_, I.origin, I.conns,
    fun g hg => (I.tasks g hg).same rfl, I.rounds_step M hn hf⟩
  · exact (ForwardState.successors_step (ForwardEvent.ne_setSuccessors_of_isOwn hown) hf).trans
      I.current.2
  · show s.hello.length = f.relay.links.length
    rw [ForwardState.links_length_step hf, ForwardEvent.registers_of_isOwn hown, I.links]
    rfl

theorem listInv_task {k : ℕ} {ω : ∀ o : EdgeOp, o.Ans} (I : s.ListInv)
    (hstep : s.step cfg (.task k ω) = some s') : s'.ListInv := by
  obtain ⟨g, hg, hstep⟩ := Option.bind_eq_some_iff.mp hstep
  have hok := I.tasks g (List.mem_of_getElem? hg)
  split at hstep
  · cases hstep
  · rename_i o f hrest
    cases hstep
    have hnote : ∀ key x, (s.noteTask g ⟨o, s.answer ω o⟩).get key = some x → s.Valid x :=
      fun key x hx => noteTask_valid I hok hrest hx
    refine ⟨I.current, I.acked, I.hello, hnote, I.links, I.origin, I.conns, fun g' hg' => ?_,
      I.rounds⟩
    rcases List.mem_or_eq_of_mem_set hg' with hg' | rfl
    · exact (I.tasks g' hg').same rfl
    · exact (hok.after I.current hrest).same rfl

/-- A handler that starts. -/
theorem ListInv.addTask (I : s.ListInv) {client : Option (AgentConn × UInt64)} {p : Handler Unit}
    (hp : ∀ caller sid, client = none ∨ client = some (caller, sid) →
      Handler.Sited caller sid [] p) :
    ({ s with tasks := s.tasks ++ [⟨client, [], p, []⟩] } : RelocationState).ListInv := by
  refine ⟨I.current, I.acked, I.hello, I.handed, I.links, I.origin, I.conns, ?_, I.rounds⟩
  refine List.forall_mem_append.mpr ⟨fun g hg => (I.tasks g hg).same rfl,
    List.forall_mem_singleton.mpr ?_⟩
  exact ⟨hp, fun _ h => absurd h List.not_mem_nil, rfl, fun _ h => absurd h List.not_mem_nil⟩

theorem listInv_resumeHalf {ac : ℕ} {kind : HalfKind} {id my ack : UInt64} (I : s.ListInv)
    (hstep : s.step cfg (.resumeHalf ac kind id my ack) = some s') : s'.ListInv := by
  obtain ⟨uri, huri, hstep⟩ := Option.bind_eq_some_iff.mp hstep
  obtain ⟨r, hr, rfl⟩ := Option.map_eq_some_iff.mp hstep
  unfold ResumeState.step at hr
  split_ifs at hr
  cases hr
  have hac : ac < s.hello.length := by
    obtain ⟨link, hlink, -⟩ := Option.bind_eq_some_iff.mp huri
    rw [I.links]
    exact (List.getElem?_eq_some_iff.mp hlink).1
  refine ⟨I.current, I.acked, I.hello, I.handed, I.links, ?_, ?_,
    fun g hg => (I.tasks g hg).same rfl, I.rounds⟩
  · show (s.origin ++ [ac]).length = _
    rw [ResumeState.length_submit, ← I.origin]
    exact List.length_append
  · exact List.forall_mem_append.mpr ⟨I.conns, List.forall_mem_singleton.mpr hac⟩

/-- **Every step keeps the invariant.** -/
theorem listInv_step (I : s.ListInv) (M : s.forward.MatchInv) (R : s.resume.SpliceInv)
    (hstep : s.step cfg e = some s') : s'.ListInv := by
  cases e with
  | setSuccessors endpoints => exact listInv_setSuccessors I hstep
  | helloAck uri =>
    cases hstep
    exact ⟨I.current, List.forall_mem_append.mpr ⟨I.acked, List.forall_mem_singleton.mpr I.current⟩,
      I.hello, I.handed, I.links, I.origin, I.conns, fun g hg => (I.tasks g hg).same rfl, I.rounds⟩
  | register j => exact listInv_register I M hstep
  | forward fe => exact listInv_forward I M hstep
  | openStream ac o =>
    obtain ⟨uri, -, rfl⟩ := Option.map_eq_some_iff.mp hstep
    refine I.addTask fun caller sid hclient => ?_
    rcases hclient with h | h
    · cases h
    · cases h
      exact Handler.handleOpenStream_informed
  | forwarded =>
    cases hstep
    exact I.addTask fun _ _ _ => Handler.handleForwardedStream_informed
  | task k ω => exact listInv_task I hstep
  | resumeHalf ac kind id my ack => exact listInv_resumeHalf I hstep
  | resume re =>
    simp only [step] at hstep
    split_ifs at hstep with hown
    obtain ⟨r, hr, rfl⟩ := Option.map_eq_some_iff.mp hstep
    exact ⟨I.current, I.acked, I.hello, I.handed, I.links,
      I.origin.trans (ResumeState.length_step R (ResumeEvent.ne_submit_of_isOwn hown) hr).symm,
      I.conns, fun g hg => (I.tasks g hg).same rfl, I.rounds⟩

/-! ### Its parts run as they do on their own -/

theorem resume_noteForward (fe : ForwardEvent) : (s.noteForward fe).resume = s.resume := by
  cases fe with
  | driver i now =>
    unfold noteForward noteDriver
    dsimp only
    split
    · rfl
    · split
      · rfl
      · rfl
      · split <;> rfl
      · rfl
  | _ => rfl

/-- **What a step does to the parts**: each stands still or takes a step of its
own. -/
theorem step_parts (hstep : s.step cfg e = some s') :
    (s'.forward = s.forward ∨ ∃ fe, s.forward.step cfg.toForwardConfig fe = some s'.forward)
      ∧ (s'.resume = s.resume ∨ ∃ re, s.resume.step re = some s'.resume) := by
  cases e with
  | setSuccessors endpoints =>
    obtain ⟨f, hf, rfl⟩ := Option.map_eq_some_iff.mp hstep
    exact ⟨Or.inr ⟨_, hf⟩, Or.inl rfl⟩
  | helloAck uri =>
    cases hstep
    exact ⟨Or.inl rfl, Or.inl rfl⟩
  | register j =>
    obtain ⟨x, -, hstep⟩ := Option.bind_eq_some_iff.mp hstep
    obtain ⟨f, hf, rfl⟩ := Option.map_eq_some_iff.mp hstep
    exact ⟨Or.inr ⟨_, hf⟩, Or.inl rfl⟩
  | forward fe =>
    simp only [step] at hstep
    split_ifs at hstep
    obtain ⟨f, hf, rfl⟩ := Option.map_eq_some_iff.mp hstep
    exact ⟨Or.inr ⟨_, hf⟩, Or.inl (resume_noteForward fe)⟩
  | openStream ac o =>
    obtain ⟨uri, -, rfl⟩ := Option.map_eq_some_iff.mp hstep
    exact ⟨Or.inl rfl, Or.inl rfl⟩
  | forwarded =>
    cases hstep
    exact ⟨Or.inl rfl, Or.inl rfl⟩
  | task k ω =>
    obtain ⟨g, -, hstep⟩ := Option.bind_eq_some_iff.mp hstep
    split at hstep
    · cases hstep
    · cases hstep
      exact ⟨Or.inl rfl, Or.inl rfl⟩
  | resumeHalf ac kind id my ack =>
    obtain ⟨uri, -, hstep⟩ := Option.bind_eq_some_iff.mp hstep
    obtain ⟨r, hr, rfl⟩ := Option.map_eq_some_iff.mp hstep
    exact ⟨Or.inl rfl, Or.inr ⟨_, hr⟩⟩
  | resume re =>
    simp only [step] at hstep
    split_ifs at hstep
    obtain ⟨r, hr, rfl⟩ := Option.map_eq_some_iff.mp hstep
    exact ⟨Or.inl rfl, Or.inr ⟨_, hr⟩⟩

theorem reachable_parts {idleTTL pendingTTL start : Time}
    (hs : (relocationMachine cfg idleTTL pendingTTL start).Reachable s) :
    (forwardMachine cfg.toForwardConfig idleTTL pendingTTL start).Reachable s.forward
      ∧ resumeMachine.Reachable s.resume := by
  refine hs.invariant (I := fun s =>
    (forwardMachine cfg.toForwardConfig idleTTL pendingTTL start).Reachable s.forward
      ∧ resumeMachine.Reachable s.resume) ⟨.init, .init⟩ (fun {s e s'} _ I hstep => ?_)
  obtain ⟨hf, hr⟩ := step_parts hstep
  constructor
  · rcases hf with hf | ⟨fe, hf⟩
    · rw [hf]
      exact I.1
    · exact I.1.step hf
  · rcases hr with hr | ⟨re, hr⟩
    · rw [hr]
      exact I.2
    · exact I.2.step hr

/-- The invariant holds in every reachable state. -/
theorem listInv_of_reachable {idleTTL pendingTTL start : Time}
    (hs : (relocationMachine cfg idleTTL pendingTTL start).Reachable s) : s.ListInv := by
  refine hs.invariant (I := ListInv) ⟨⟨le_rfl, rfl⟩, ?_, ?_, ?_, rfl, rfl, ?_, ?_, ?_⟩
    (fun hr I hstep => ?_)
  · exact fun x hx => absurd hx List.not_mem_nil
  · exact fun x hx => absurd hx List.not_mem_nil
  · intro key x hx
    cases hx
  · exact fun x hx => absurd hx List.not_mem_nil
  · exact fun x hx => absurd hx List.not_mem_nil
  · intro i a rr hi
    cases hi
  · obtain ⟨hf, hm⟩ := reachable_parts hr
    exact listInv_step I (ForwardState.matchInv_of_reachable hf)
      (ResumeState.spliceInv_of_reachable hm) hstep

/-! ## Who has told the agents -/

/-- What the handler `k` has told an agent is what the agent holds, unless somebody
else sends lists for the stream. -/
def HandlerTold (s : RelocationState) (k : ℕ) : Prop :=
  ∀ g uri sid l, s.tasks[k]? = some g → .handed uri sid l ∈ Handler.listEvents g.trace →
    ∃ x, s.handed.get (uri, sid) = some x
      ∧ (s.Sole sid (.handler k) →
          Handler.lastHanded uri sid (Handler.listEvents g.trace) = some x.list)

/-- The same for the driver of the half `i`, once it has told its own agent. -/
def DriverTold (s : RelocationState) (i : ℕ) : Prop :=
  ∀ a p y z rr, s.forward.halves[i]? = some a → a.driver = .writePeer p y z rr →
    ∃ x, s.handed.get (a.agentURI.val, a.id) = some x
      ∧ (s.Sole a.id (.driver i) → x.list = rr)

/-- **The invariant**: what agents hold goes back to those who send it. -/
structure SentInv (s : RelocationState) : Prop where
  source : ∀ uri sid x, s.handed.get (uri, sid) = some x → ∃ src, s.Sends sid src
  handlers : ∀ k, s.HandlerTold k
  drivers : ∀ i, s.DriverTold i

/-- **What a step does to what agents hold**: nobody stops sending, and at most
`actor` sends a list. -/
structure Acts (actor : Option Source) (s s' : RelocationState) : Prop where
  sends : ∀ sid src, s.Sends sid src → s'.Sends sid src
  handed : s'.handed = s.handed ∨ ∃ src uri sid y, actor = some src ∧ s'.Sends sid src
    ∧ s'.handed = s.handed.set (uri, sid) y

theorem Acts.sole {actor : Option Source} (h : Acts actor s s') {sid : UInt64} {src : Source}
    (hs : s'.Sole sid src) : s.Sole sid src :=
  fun src' hsrc => hs src' (h.sends sid src' hsrc)

/-- **What `src` has told an agent** stays so while another one acts, or the other
one sends lists for the stream as well. -/
theorem Acts.told {actor : Option Source} (h : Acts actor s s') {P : Handout → Prop}
    {src : Source} {uri : GoString} {sid : UInt64} (hother : actor ≠ some src)
    (htold : ∃ x, s.handed.get (uri, sid) = some x ∧ (s.Sole sid src → P x)) :
    ∃ x, s'.handed.get (uri, sid) = some x ∧ (s'.Sole sid src → P x) := by
  obtain ⟨x, hx, hP⟩ := htold
  rcases h.handed with hsame | ⟨src', uri', sid', y, hactor, hs, hset⟩
  · exact ⟨x, hsame ▸ hx, fun hsole => hP (h.sole hsole)⟩
  · rw [hset, GoMap.get_set]
    split_ifs with hkey
    · cases hkey
      refine ⟨y, rfl, fun hsole => absurd ?_ hother⟩
      rw [hactor, hsole src' hs]
    · exact ⟨x, hx, fun hsole => hP (h.sole hsole)⟩

/-- **A step keeps the invariant** if what the actor has told is right. -/
theorem SentInv.of_acts (J : s.SentInv) {actor : Option Source} (h : Acts actor s s')
    (htasks : ∀ (k : ℕ) (g : StreamTask), s'.tasks[k]? = some g →
      actor = some (.handler k) ∨ g.trace = [] ∨ s.tasks[k]? = some g)
    (hhalves : ∀ (i : ℕ) (c : ForwardHalf), s'.forward.halves[i]? = some c →
      c.driver.inRound = true → actor = some (.driver i)
        ∨ ∃ a, s.forward.halves[i]? = some a ∧ a.driver = c.driver ∧ a.SameSubmission c)
    (hhandler : ∀ k, actor = some (.handler k) → s'.HandlerTold k)
    (hdriver : ∀ i, actor = some (.driver i) → s'.DriverTold i) : s'.SentInv := by
  refine ⟨fun uri sid x hx => ?_, fun k => ?_, fun i => ?_⟩
  · rcases h.handed with hsame | ⟨src, uri', sid', y, -, hs, hset⟩
    · rw [hsame] at hx
      obtain ⟨src, hs⟩ := J.source uri sid x hx
      exact ⟨src, h.sends sid src hs⟩
    · rw [hset, GoMap.get_set] at hx
      split_ifs at hx with hkey
      · cases hkey
        exact ⟨src, hs⟩
      · obtain ⟨src, hs⟩ := J.source uri sid x hx
        exact ⟨src, h.sends sid src hs⟩
  · by_cases hk : actor = some (.handler k)
    · exact hhandler k hk
    · intro g uri sid l hg hmem
      rcases htasks k g hg with hactor | hnil | hg
      · exact absurd hactor hk
      · rw [hnil] at hmem
        exact absurd hmem List.not_mem_nil
      · exact h.told hk (J.handlers k g uri sid l hg hmem)
  · by_cases hi : actor = some (.driver i)
    · exact hdriver i hi
    · intro c p y z rr hc hpc
      rcases hhalves i c hc (by rw [hpc]; rfl) with hactor | ⟨a, ha, hsame, hid, huri, -⟩
      · exact absurd hactor hi
      · rw [huri, hid]
        exact h.told hi (J.drivers i a p y z rr ha (hsame.trans hpc))

/-- Who sends lists goes on to do so, where handlers keep what they have done and
drivers what they have read. -/
theorem sends_mono (htasks : ∀ (k : ℕ) (g : StreamTask), s.tasks[k]? = some g →
      ∃ g' t, s'.tasks[k]? = some g' ∧ g'.trace = g.trace ++ t)
    (hhalves : ∀ (i : ℕ) (a : ForwardHalf), s.forward.halves[i]? = some a →
      ∃ c, s'.forward.halves[i]? = some c ∧ a.SameSubmission c)
    (hrounds : ∀ i n, s.rounds.get i = some n → ∃ n', s'.rounds.get i = some n') (sid : UInt64)
    (src : Source) (h : s.Sends sid src) : s'.Sends sid src := by
  cases src with
  | handler k =>
    obtain ⟨g, uri, l, hg, hmem⟩ := h
    obtain ⟨g', t, hg', ht⟩ := htasks k g hg
    refine ⟨g', uri, l, hg', ?_⟩
    rw [ht, Handler.listEvents_append]
    exact List.mem_append_left _ hmem
  | driver i =>
    obtain ⟨a, n, ha, rfl, hn⟩ := h
    obtain ⟨c, hc, hid, -⟩ := hhalves i a ha
    obtain ⟨n', hn'⟩ := hrounds i n hn
    exact ⟨c, n', hc, hid, hn'⟩

/-- **A step that touches no driver and no list**: a handler may start. -/
theorem SentInv.same (J : s.SentInv) (hhanded : s'.handed = s.handed)
    (hrounds : s'.rounds = s.rounds) (hhalves : s'.forward.halves = s.forward.halves)
    {new : List StreamTask} (htasks : s'.tasks = s.tasks ++ new)
    (hnew : ∀ g ∈ new, g.trace = []) : s'.SentInv := by
  have hacts : Acts none s s' := by
    refine ⟨sends_mono (fun k g hg => ⟨g, [], ?_, (List.append_nil _).symm⟩)
      (fun i a hi => ⟨a, hhalves ▸ hi, rfl, rfl, rfl⟩) (fun i n hn => ⟨n, hrounds ▸ hn⟩),
      Or.inl hhanded⟩
    rw [htasks, List.getElem?_append_left (List.getElem?_eq_some_iff.mp hg).1]
    exact hg
  refine J.of_acts hacts (fun k g hg => Or.inr ?_)
    (fun i c hi _ => Or.inr ⟨c, hhalves ▸ hi, rfl, rfl, rfl, rfl⟩) nofun nofun
  rw [htasks, List.getElem?_append] at hg
  split_ifs at hg
  · exact Or.inr hg
  · exact Or.inl (hnew g (List.mem_of_getElem? hg))

/-- Whose step it is. -/
def actor? : ForwardEvent → Option Source
  | .driver i _ => some (.driver i)
  | _ => none

/-- **A driver that has told its own agent**, after a step of its own. -/
theorem driverTold_of_notes {f : ForwardState} {rounds : GoMap ℕ ℕ} {i : ℕ} {now : Time}
    (J : s.SentInv) (M : s.forward.MatchInv) (hn : s.Notes (.driver i now) rounds s'.handed)
    (hf : s.forward.step cfg.toForwardConfig (.driver i now) = some f) (hforward : s'.forward = f)
    {actor : Option Source} (hacts : Acts actor s s') : s'.DriverTold i := by
  intro c p y z rr hc hpc
  rw [hforward] at hc
  obtain ⟨a, ha, hcase⟩ := ForwardState.driver_step M hf hc (by rw [hpc]; rfl)
  obtain ⟨c', hc', ⟨hid, huri, -⟩, -⟩ := (ForwardState.evolves_step M hf).old i a ha
  cases hc.symm.trans hc'
  rw [hid, huri]
  -- it was there before, or has just written to its own agent
  have hpre : a.driver = .writePeer p y z rr ∨ a.driver = .writeSelf p y z rr := by
    rw [hpc] at hcase
    rcases hcase with hsame | ⟨now', -, hnext⟩
    · exact Or.inl hsame
    · generalize a.driver = pc at hnext
      cases hnext
      exact Or.inr rfl
  have hbefore : a.driver = .writePeer p y z rr → ∃ x, s.handed.get (a.agentURI.val, a.id) = some x
      ∧ (s'.Sole a.id (.driver i) → x.list = rr) := by
    intro hpc'
    obtain ⟨x, hx, hlist⟩ := J.drivers i a p y z rr ha hpc'
    exact ⟨x, hx, fun hsole => hlist (hacts.sole hsole)⟩
  generalize s'.handed = handed at hn ⊢
  cases hn with
  | still hno =>
    exact hbefore (hpre.resolve_right ((hno i now a p y z rfl ha).2 rr))
  | read hi hpc' =>
    cases hi.symm.trans ha
    rw [hpc'] at hpre
    rcases hpre with h | h <;> cases h
  | sent hi hl hself =>
    cases hi.symm.trans ha
    rw [GoMap.get_set]
    split_ifs with hkey
    · refine ⟨_, rfl, fun _ => ?_⟩
      rcases hpre with h | h <;> rw [h] at hl <;> cases hl <;> rfl
    · exact hbefore (hpre.resolve_right fun h => hkey (by rw [hself p y z rr h]))

/-- What a driver has read, it has read for good. -/
theorem Notes.rounds_mono {fe : ForwardEvent} {rounds : GoMap ℕ ℕ}
    {handed : GoMap (GoString × UInt64) Handout} (hn : s.Notes fe rounds handed) (i n : ℕ)
    (hi : s.rounds.get i = some n) : ∃ n', rounds.get i = some n' := by
  cases hn with
  | still | sent => exact ⟨n, hi⟩
  | read =>
    rw [GoMap.get_set]
    split_ifs
    · exact ⟨_, rfl⟩
    · exact ⟨n, hi⟩

/-- The list that the forwarding part sends is sent by the driver whose step it is. -/
theorem acts_of_notes {fe : ForwardEvent} {f : ForwardState} (I : s.ListInv)
    (M : s.forward.MatchInv) (hf : s.forward.step cfg.toForwardConfig fe = some f)
    (hn : s.Notes fe s'.rounds s'.handed) (hforward : s'.forward = f)
    (htasks : s'.tasks = s.tasks) : Acts (actor? fe) s s' := by
  subst hforward
  have hold : ∀ (i : ℕ) (a : ForwardHalf), s.forward.halves[i]? = some a →
      ∃ c, s'.forward.halves[i]? = some c ∧ a.SameSubmission c := by
    intro i a hi
    obtain ⟨c, hc, hsame, -⟩ := (ForwardState.evolves_step M hf).old i a hi
    exact ⟨c, hc, hsame⟩
  refine ⟨sends_mono (fun k g hg => ⟨g, [], htasks ▸ hg, (List.append_nil _).symm⟩) hold
    hn.rounds_mono, ?_⟩
  generalize hr : s'.rounds = rounds at hn
  generalize s'.handed = handed at hn ⊢
  cases hn with
  | still | read => exact Or.inl rfl
  | @sent i now a rr uri hi hl hself =>
    obtain ⟨n, hn, -⟩ := I.rounds i a rr hi hl
    obtain ⟨c, hc, hid, -⟩ := hold i a hi
    exact Or.inr ⟨.driver i, uri, a.id, _, rfl, ⟨c, n, hc, hid, hr ▸ hn⟩, rfl⟩

/-- **A step of the forwarding part.** -/
theorem SentInv.forward {fe : ForwardEvent} {f : ForwardState} {rounds : GoMap ℕ ℕ}
    {handed : GoMap (GoString × UInt64) Handout} (J : s.SentInv) (I : s.ListInv)
    (M : s.forward.MatchInv) (hf : s.forward.step cfg.toForwardConfig fe = some f)
    (hn : s.Notes fe rounds handed) (hforward : s'.forward = f)
    (hrounds : s'.rounds = rounds) (hhanded : s'.handed = handed) (htasks : s'.tasks = s.tasks) :
    s'.SentInv := by
  subst hforward hrounds hhanded
  have hacts := acts_of_notes I M hf hn rfl htasks
  refine J.of_acts hacts (fun k g hg => Or.inr (Or.inr (htasks ▸ hg))) (fun i c hi hround => ?_)
    (fun k hk => ?_) (fun i hi => ?_)
  · obtain ⟨a, ha, hsame | ⟨now, rfl, -⟩⟩ := ForwardState.driver_step M hf hi hround
    · obtain ⟨c', hc', hsub, -⟩ := (ForwardState.evolves_step M hf).old i a ha
      cases hi.symm.trans hc'
      exact Or.inr ⟨a, ha, hsame, hsub⟩
    · exact Or.inl rfl
  · cases fe <;> cases hk
  · cases fe with
    | driver j now =>
      cases hi
      exact driverTold_of_notes J M hn hf rfl hacts
    | _ => cases hi

/-- What an operation notes: the list that it hands out, if it does. -/
theorem noteTask_cases (ev : EdgeEvent) :
    ((∀ uri sid l, Handler.listEvent? ev ≠ some (.handed uri sid l)) ∧ s.noteTask g ev = s.handed)
      ∨ ∃ uri sid l, Handler.listEvent? ev = some (.handed uri sid l)
        ∧ s.noteTask g ev = s.handed.set (uri, sid) ⟨l, g.reads.getLast?.getD 0⟩ := by
  unfold noteTask
  split
  · rename_i uri sid l hev
    exact Or.inr ⟨uri, sid, l, hev, rfl⟩
  · rename_i hno
    exact Or.inl ⟨fun uri sid l hev => hno uri sid l hev, rfl⟩

/-- **A handler's own operation**: what it has told last is what the agent holds. -/
theorem handlerTold_of_note {k : ℕ} {ev : EdgeEvent} {rest : Handler Unit} {n : ℕ}
    (J : s.SentInv) (hg : s.tasks[k]? = some g) (hg' : s'.tasks[k]? = some (g.after ev rest n))
    (hhanded : s'.handed = s.noteTask g ev) {actor : Option Source} (hacts : Acts actor s s') :
    s'.HandlerTold k := by
  intro g' uri sid l hg'' hmem
  cases hg'.symm.trans hg''
  have htrace : Handler.listEvents (g.after ev rest n).trace
      = Handler.listEvents g.trace ++ (Handler.listEvent? ev).toList :=
    Handler.listEvents_snoc g.trace ev
  have hbefore : .handed uri sid l ∈ Handler.listEvents g.trace →
      ∃ x, s.handed.get (uri, sid) = some x ∧ (s'.Sole sid (.handler k) →
        Handler.lastHanded uri sid (Handler.listEvents g.trace) = some x.list) := by
    intro hmem
    obtain ⟨x, hx, hlast⟩ := J.handlers k g uri sid l hg hmem
    exact ⟨x, hx, fun hsole => hlast (hacts.sole hsole)⟩
  rw [htrace] at hmem ⊢
  rw [hhanded]
  rcases noteTask_cases ev with ⟨hno, heq⟩ | ⟨uri', sid', l', hev, heq⟩
  · have hmem : .handed uri sid l ∈ Handler.listEvents g.trace := by
      rcases List.mem_append.mp hmem with h | h
      · exact h
      · exact absurd (Option.mem_toList.mp h) (hno uri sid l)
    have hnone : (Handler.listEvent? ev).bind (Handler.ListEvent.handedTo? uri sid) = none := by
      cases hev : Handler.listEvent? ev with
      | none => rfl
      | some le =>
        cases le with
        | handed uri' sid' l' => exact absurd hev (hno uri' sid' l')
        | _ => rfl
    rw [heq, Handler.lastHanded_append, hnone]
    exact hbefore hmem
  · rw [heq, Handler.lastHanded_append, hev, GoMap.get_set]
    rw [hev] at hmem
    by_cases hkey : (uri', sid') = (uri, sid)
    · rw [if_pos hkey.symm]
      exact ⟨_, rfl, fun _ => by simp [Handler.ListEvent.handedTo?, hkey]⟩
    · have hmem : .handed uri sid l ∈ Handler.listEvents g.trace := by
        rcases List.mem_append.mp hmem with h | h
        · exact h
        · cases Option.mem_toList.mp h
          exact absurd rfl hkey
      rw [if_neg (Ne.symm hkey)]
      simp only [Option.bind_some, Handler.ListEvent.handedTo?, if_neg hkey, Option.none_or]
      exact hbefore hmem

/-- **A step of a handler.** -/
theorem sentInv_task {k : ℕ} {ω : ∀ o : EdgeOp, o.Ans} (J : s.SentInv)
    (hstep : s.step cfg (.task k ω) = some s') : s'.SentInv := by
  obtain ⟨g, hg, hstep⟩ := Option.bind_eq_some_iff.mp hstep
  split at hstep
  · cases hstep
  · rename_i o f hrest
    cases hstep
    have hlt : k < s.tasks.length := (List.getElem?_eq_some_iff.mp hg).1
    have hself : (s.tasks.set k (g.after ⟨o, s.answer ω o⟩ (f (s.answer ω o)) s.sets.length))[k]?
        = some (g.after ⟨o, s.answer ω o⟩ (f (s.answer ω o)) s.sets.length) :=
      List.getElem?_set_self hlt
    have hacts : Acts (some (.handler k)) s { s with
        tasks := s.tasks.set k (g.after ⟨o, s.answer ω o⟩ (f (s.answer ω o)) s.sets.length)
        handed := s.noteTask g ⟨o, s.answer ω o⟩ } := by
      refine ⟨sends_mono (fun j g₁ hg₁ => ?_) (fun i a hi => ⟨a, hi, rfl, rfl, rfl⟩)
        (fun i n hn => ⟨n, hn⟩), ?_⟩
      · by_cases hjk : k = j
        · subst hjk
          cases hg.symm.trans hg₁
          exact ⟨_, _, hself, rfl⟩
        · exact ⟨g₁, [], (List.getElem?_set_ne hjk).trans hg₁, (List.append_nil _).symm⟩
      · rcases noteTask_cases (s := s) (g := g) ⟨o, s.answer ω o⟩ with
          ⟨-, heq⟩ | ⟨uri, sid, l, hev, heq⟩
        · exact Or.inl heq
        · refine Or.inr ⟨.handler k, uri, sid, _, rfl, ⟨_, uri, l, hself, ?_⟩, heq⟩
          rw [show (g.after ⟨o, s.answer ω o⟩ (f (s.answer ω o)) s.sets.length).trace
            = g.trace ++ [⟨o, s.answer ω o⟩] from rfl, Handler.listEvents_snoc, hev]
          exact List.mem_append_right _ List.mem_cons_self
    refine J.of_acts hacts (fun j g₁ hg₁ => ?_)
      (fun i c hi _ => Or.inr ⟨c, hi, rfl, rfl, rfl, rfl⟩) (fun j hj => ?_) nofun
    · by_cases hjk : k = j
      · exact Or.inl (hjk ▸ rfl)
      · exact Or.inr (Or.inr ((List.getElem?_set_ne hjk).symm.trans hg₁))
    · cases hj
      exact handlerTold_of_note J hg hself rfl hacts

/-- **Every step keeps the invariant.** -/
theorem sentInv_step (J : s.SentInv) (I : s.ListInv) (M : s.forward.MatchInv)
    (hstep : s.step cfg e = some s') : s'.SentInv := by
  cases e with
  | setSuccessors endpoints =>
    obtain ⟨f, hf, rfl⟩ := Option.map_eq_some_iff.mp hstep
    exact J.forward I M hf (.still fun i now a p x y hfe => nomatch hfe) rfl rfl rfl rfl
  | helloAck uri =>
    cases hstep
    exact J.same rfl rfl rfl (List.append_nil _).symm nofun
  | register j =>
    obtain ⟨x, -, hstep⟩ := Option.bind_eq_some_iff.mp hstep
    obtain ⟨f, hf, rfl⟩ := Option.map_eq_some_iff.mp hstep
    exact J.forward I M hf (.still fun i now a p x y hfe => nomatch hfe) rfl rfl rfl rfl
  | forward fe =>
    simp only [step] at hstep
    split_ifs at hstep
    obtain ⟨f, hf, rfl⟩ := Option.map_eq_some_iff.mp hstep
    obtain ⟨rounds, handed, heq, hn⟩ := exists_notes fe
    rw [heq]
    exact J.forward I M hf hn rfl rfl rfl rfl
  | openStream ac o =>
    obtain ⟨uri, -, rfl⟩ := Option.map_eq_some_iff.mp hstep
    exact J.same rfl rfl rfl rfl (List.forall_mem_singleton.mpr rfl)
  | forwarded =>
    cases hstep
    exact J.same rfl rfl rfl rfl (List.forall_mem_singleton.mpr rfl)
  | task k ω => exact sentInv_task J hstep
  | resumeHalf ac kind id my ack =>
    obtain ⟨uri, -, hstep⟩ := Option.bind_eq_some_iff.mp hstep
    obtain ⟨r, -, rfl⟩ := Option.map_eq_some_iff.mp hstep
    exact J.same rfl rfl rfl (List.append_nil _).symm nofun
  | resume re =>
    simp only [step] at hstep
    split_ifs at hstep
    obtain ⟨r, -, rfl⟩ := Option.map_eq_some_iff.mp hstep
    exact J.same rfl rfl rfl (List.append_nil _).symm nofun

theorem sentInv_of_reachable {idleTTL pendingTTL start : Time}
    (hs : (relocationMachine cfg idleTTL pendingTTL start).Reachable s) : s.SentInv := by
  refine hs.invariant (I := SentInv) ⟨fun uri sid x hx => ?_, fun k g uri sid l hg => ?_,
    fun i a p y z rr hi => ?_⟩ (fun hr J hstep => ?_)
  · cases hx
  · cases hg
  · cases hi
  · exact sentInv_step J (listInv_of_reachable hr)
      (ForwardState.matchInv_of_reachable (reachable_parts hr).1) hstep

/-! ## Where agreement is steadiness -/

/-- What the agents have been told when a handler is about to perform `o`. -/
theorem TaskOK.informed {caller : AgentConn} {sid : UInt64} {o : EdgeOp} (h : s.TaskOK g)
    (hclient : g.client = some (caller, sid)) (hnext : g.next = some o) :
    Handler.Informed caller sid (Handler.listEvents g.trace) o := by
  have hs := h.sited caller sid (Or.inr hclient)
  unfold StreamTask.next at hnext
  split at hnext
  · cases hnext
  · rename_i o' f hrest
    cases hnext
    rw [hrest] at hs
    exact hs.site

/-- The relay found an agent under its own URI. -/
theorem TaskOK.uri_of_lookup {uri : GoString} {ac : AgentConn} (h : s.TaskOK g)
    (hmem : .lookup uri (some ac) ∈ Handler.listEvents g.trace) : ac.uri = uri :=
  h.honest _ (Handler.lookup_mem_listEvents.mp hmem)

/-- **The lists of an opened stream that is spliced**: the caller holds what was
read second, and the provider what was read first exactly where it was not
found. -/
theorem TaskOK.spliced {caller prov : AgentConn} {sid : UInt64} (h : s.TaskOK g)
    (hclient : g.client = some (caller, sid))
    (hnext : g.next = some (.splice .consumer (.provider prov))) :
    ∃ m n, g.reads = [m, n]
      ∧ Handler.lastHanded caller.uri sid (Handler.listEvents g.trace) = some (s.inForce n)
      ∧ ∃ l, Handler.lastHanded prov.uri sid (Handler.listEvents g.trace) = some l
        ∧ ((⟨.lookupAgent prov.uri, none⟩ : EdgeEvent) ∈ g.trace ∧ caller.uri ≠ prov.uri →
            l = s.inForce m)
        ∧ (¬ ((⟨.lookupAgent prov.uri, none⟩ : EdgeEvent) ∈ g.trace ∧ caller.uri ≠ prov.uri) →
            l = s.inForce n) := by
  obtain ⟨l₀, l, provAC, hevs⟩ := h.informed hclient hnext
  have hac : ∀ ac, provAC = some ac → ac.uri = prov.uri := by
    rintro ac rfl
    refine h.uri_of_lookup ?_
    rw [hevs]
    simp [Handler.opened]
  have hnone : (⟨.lookupAgent prov.uri, none⟩ : EdgeEvent) ∈ g.trace ↔ provAC = none := by
    rw [← Handler.lookup_mem_listEvents, hevs]
    cases provAC <;> simp [Handler.opened]
  obtain ⟨hcaller, hprov⟩ := Handler.lastHanded_splice hac hevs
  have hreads : g.reads.map s.inForce = [l₀, l] := by
    rw [← h.reads, hevs]
    cases provAC <;> rfl
  obtain ⟨m, t, hm, rfl, ht⟩ := List.map_eq_cons_iff.mp hreads
  obtain ⟨n, t', rfl, rfl, ht'⟩ := List.map_eq_cons_iff.mp ht
  rw [List.map_eq_nil_iff.mp ht'] at hm
  refine ⟨m, n, hm, hcaller, _, hprov, fun hlost => ?_, fun hfound => ?_⟩
  · exact if_pos ⟨hnone.mp hlost.1, hlost.2⟩
  · exact if_neg fun hlost => hfound ⟨hnone.mpr hlost.1, hlost.2⟩

/-- The lists of an opened stream that is granted. -/
theorem TaskOK.granted {caller prov : AgentConn} {sid : UInt64} (h : s.TaskOK g)
    (hclient : g.client = some (caller, sid))
    (hnext : g.next = some (.drain .consumer (.provider prov))) :
    ∃ l, Handler.lastHanded caller.uri sid (Handler.listEvents g.trace) = some l
      ∧ Handler.lastHanded prov.uri sid (Handler.listEvents g.trace) = some l := by
  obtain ⟨l₀, l, ac, hevs⟩ := h.informed hclient hnext
  have hac : ac.uri = prov.uri := by
    refine h.uri_of_lookup ?_
    rw [hevs]
    simp [Handler.opened]
  have hsome : Handler.listEvents g.trace = Handler.opened prov sid l₀
      ++ [.lookup prov.uri (some ac), .read l, .handed caller.uri sid l]
      ++ ((some ac).map (fun ac => Handler.ListEvent.handed ac.uri sid l)).toList := hevs
  obtain ⟨hcaller, hprov⟩ := Handler.lastHanded_splice (fun _ h => Option.some.inj h ▸ hac) hsome
  exact ⟨l, hcaller, hprov⟩

/-- **The lists of an opened stream** that is spliced or drained. They are one list
unless the provider was not found. -/
theorem TaskOK.flowing {caller prov : AgentConn} {sid : UInt64} (h : s.TaskOK g)
    (hclient : g.client = some (caller, sid))
    (hnext : g.next = some (.splice .consumer (.provider prov))
      ∨ g.next = some (.drain .consumer (.provider prov))) :
    ∃ l l', Handler.lastHanded caller.uri sid (Handler.listEvents g.trace) = some l
      ∧ Handler.lastHanded prov.uri sid (Handler.listEvents g.trace) = some l'
      ∧ (l = l' ∨ (⟨.lookupAgent prov.uri, none⟩ : EdgeEvent) ∈ g.trace
        ∧ ∃ m n, g.reads = [m, n] ∧ l' = s.inForce m ∧ l = s.inForce n) := by
  rcases hnext with hnext | hnext
  · obtain ⟨m, n, hreads, hcaller, l, hprov, hfirst, hsecond⟩ := h.spliced hclient hnext
    refine ⟨_, _, hcaller, hprov, ?_⟩
    by_cases hlost : (⟨.lookupAgent prov.uri, none⟩ : EdgeEvent) ∈ g.trace ∧ caller.uri ≠ prov.uri
    · exact Or.inr ⟨hlost.1, m, n, hreads, hfirst hlost, rfl⟩
    · exact Or.inl (hsecond hlost).symm
  · obtain ⟨l, hcaller, hprov⟩ := h.granted hclient hnext
    exact ⟨l, l, hcaller, hprov, Or.inl rfl⟩

/-- What an agent holds was in force when it was read. -/
theorem ListInv.valid_held (I : s.ListInv) {c : AgentConn} {sid : UInt64}
    (hx : s.held c sid = some x) : s.Valid x := by
  unfold held at hx
  cases hget : s.handed.get (c.uri, sid) with
  | some y =>
    rw [hget] at hx
    cases hx
    exact I.handed _ x hget
  | none =>
    rw [hget] at hx
    exact I.hello x (List.mem_of_getElem? hx)

theorem held_of_get {c : AgentConn} {sid : UInt64} (h : s.handed.get (c.uri, sid) = some x) :
    s.held c sid = some x := by
  unfold held
  rw [h]
  rfl

theorem exists_held {c : AgentConn} {sid : UInt64} (hc : c.id < s.hello.length) :
    ∃ x, s.held c sid = some x := by
  unfold held
  rw [List.getElem?_eq_getElem hc]
  cases s.handed.get (c.uri, sid) with
  | some y => exact ⟨y, rfl⟩
  | none => exact ⟨_, rfl⟩

/-- **Where bytes start to flow, both agents hold a list.** -/
theorem Flows.held (I : s.ListInv) (J : s.SentInv) (L : s.forward.HalfLinks) {c d : AgentConn}
    {sid : UInt64} (h : s.Flows e c d sid) :
    (∃ x, s.held c sid = some x) ∧ ∃ y, s.held d sid = some y := by
  have hlink : ∀ (i : ℕ) (a : ForwardHalf), s.forward.halves[i]? = some a →
      a.ac < s.hello.length := by
    intro i a hi
    obtain ⟨link, hl, -⟩ := L i a hi
    rw [I.links]
    exact (List.getElem?_eq_some_iff.mp hl).1
  cases h with
  | @opened k ω g _ _ _ hg hclient hnext =>
    obtain ⟨l, l', hc, hd, -⟩ := (I.tasks g (List.mem_of_getElem? hg)).flowing hclient hnext
    obtain ⟨x, hx, -⟩ := J.handlers k g _ _ _ hg (Handler.mem_of_lastHanded hc)
    obtain ⟨y, hy, -⟩ := J.handlers k g _ _ _ hg (Handler.mem_of_lastHanded hd)
    exact ⟨⟨x, held_of_get hx⟩, y, held_of_get hy⟩
  | granted hi _ hp => exact ⟨exists_held (hlink _ _ hi), exists_held (hlink _ _ hp)⟩
  | resumed _ _ _ hc hd =>
    exact ⟨exists_held (I.conns _ (List.mem_of_getElem? hc)),
      exists_held (I.conns _ (List.mem_of_getElem? hd))⟩

/-- No list is handed out in a step that lets bytes flow, except by a driver. -/
theorem held_of_flows (hno : ∀ i now, e ≠ .forward (.driver i now))
    (hstep : s.step cfg e = some s') {c d : AgentConn} {sid : UInt64} (h : s.Flows e c d sid) :
    s'.held = s.held := by
  cases h with
  | @opened k ω g _ _ _ hg hclient hnext =>
    obtain ⟨g₁, hg₁, hstep⟩ := Option.bind_eq_some_iff.mp hstep
    cases hg.symm.trans hg₁
    unfold StreamTask.next at hnext
    split at hstep
    · cases hstep
    · rename_i o f hrest
      cases hstep
      rw [hrest] at hnext
      have hnote : s.noteTask g ⟨o, s.answer ω o⟩ = s.handed := by
        rcases hnext with hnext | hnext <;> cases hnext <;> rfl
      funext c sid
      unfold held
      rw [hnote]
  | granted => exact absurd rfl (hno _ _)
  | resumed =>
    simp only [step] at hstep
    split_ifs at hstep
    obtain ⟨r, -, rfl⟩ := Option.map_eq_some_iff.mp hstep
    rfl

/-- What the agents hold after a driver has sent the second grant of its round. -/
theorem held_of_granted {i p : ℕ} {now : Time} {a b : ForwardHalf} {x y : UInt32}
    {rr : List GoString} (hi : s.forward.halves[i]? = some a)
    (hpc : a.driver = .writePeer p x y rr) (hp : s.forward.halves[p]? = some b)
    (hstep : s.step cfg (.forward (.driver i now)) = some s') (c : AgentConn) :
    s'.held c a.id = if c.uri = b.agentURI.val then some ⟨rr, (s.rounds.get i).getD 0⟩
      else s.held c a.id := by
  simp only [step] at hstep
  split_ifs at hstep
  obtain ⟨f, -, rfl⟩ := Option.map_eq_some_iff.mp hstep
  simp only [noteForward, noteDriver, hi, hpc, hp]
  unfold held
  rw [GoMap.get_set]
  simp only [Prod.mk.injEq, and_true]
  split_ifs <;> rfl

/-- Two lists that were in force when they were read. -/
theorem agree_iff {c d : Handout} (hc : s.Valid c) (hd : s.Valid d) :
    (∃ l, (some c).map Handout.list = some l ∧ (some d).map Handout.list = some l)
      ↔ s.inForce c.stamp = s.inForce d.stamp := by
  rw [← hc.2, ← hd.2]
  constructor
  · rintro ⟨l, hl, hl'⟩
    cases hl
    exact (Option.some.inj hl').symm
  · exact fun h => ⟨c.list, rfl, congrArg some h.symm⟩

/-- **A pair that is granted** agrees exactly where the list was steady: since the
driver's read, or since whatever else has told its agent a list. -/
theorem agrees_driver {i : ℕ} {now : Time} (I : s.ListInv) (J : s.SentInv)
    (L : s.forward.HalfLinks) (hstep : s.step cfg (.forward (.driver i now)) = some s') :
    Agrees ⟨s, .forward (.driver i now), s'⟩ ↔ s.Steady (.forward (.driver i now)) := by
  refine forall₄_congr fun c d sid hfl => ?_
  obtain ⟨⟨x, hx⟩, -⟩ := hfl.held I J L
  show (∃ l, (s'.held c sid).map Handout.list = some l ∧ (s'.held d sid).map Handout.list = some l)
    ↔ _
  cases hfl with
  | @granted _ p _ a b y z rr hi hpc hp =>
    obtain ⟨n, hn, hvalid⟩ := I.rounds i a rr hi (by rw [hpc]; rfl)
    rw [held_of_granted hi hpc hp hstep, held_of_granted hi hpc hp hstep, if_pos rfl, hn, hx,
      Option.getD_some]
    by_cases huri : a.agentURI.val = b.agentURI.val
    · rw [if_pos huri]
      exact iff_of_true ⟨rr, rfl, rfl⟩ fun hne => absurd huri hne
    · rw [if_neg huri, agree_iff (I.valid_held hx) hvalid]
      exact ⟨fun h _ m n hm hn' => by cases hm; cases hn'; exact h,
        fun h => h huri _ _ rfl rfl⟩

theorem steady_iff (hno : ∀ i now, e ≠ .forward (.driver i now)) :
    s.Steady e ↔ ∀ c d sid, s.Flows e c d sid → ∀ m n, (s.held c sid).map Handout.stamp = some m →
      (s.held d sid).map Handout.stamp = some n → s.inForce m = s.inForce n := by
  cases e with
  | forward fe =>
    cases fe with
    | driver i now => exact absurd rfl (hno i now)
    | _ => exact Iff.rfl
  | _ => exact Iff.rfl

/-- **Where bytes start to flow, the agents agree exactly if the list was steady.** -/
theorem agrees_iff_steady (I : s.ListInv) (J : s.SentInv) (L : s.forward.HalfLinks)
    (hstep : s.step cfg e = some s') : Agrees ⟨s, e, s'⟩ ↔ s.Steady e := by
  by_cases hdriver : ∃ i now, e = .forward (.driver i now)
  · obtain ⟨i, now, rfl⟩ := hdriver
    exact agrees_driver I J L hstep
  · have hno : ∀ i now, e ≠ .forward (.driver i now) := fun i now he => hdriver ⟨i, now, he⟩
    rw [steady_iff hno]
    refine forall₄_congr fun c d sid hfl => ?_
    obtain ⟨⟨x, hx⟩, y, hy⟩ := hfl.held I J L
    show (∃ l, (s'.held c sid).map Handout.list = some l
      ∧ (s'.held d sid).map Handout.list = some l) ↔ _
    rw [held_of_flows hno hstep hfl, hx, hy, agree_iff (I.valid_held hx) (I.valid_held hy)]
    exact ⟨fun h m n hm hn => by cases hm; cases hn; exact h, fun h => h _ _ rfl rfl⟩

/-- A handler that alone sends lists for the stream it has opened, and has read the same
list twice where it has not found its provider. -/
theorem steady_task {k : ℕ} {ω : ∀ o : EdgeOp, o.Ans} (I : s.ListInv) (J : s.SentInv)
    (h : s.Undisturbed (.task k ω)) : s.Steady (.task k ω) := by
  intro c d sid hfl m n hm hn
  cases hfl with
  | @opened _ _ g _ _ _ hg hclient hnext =>
    obtain ⟨hsole, hlost⟩ := h g c d sid hg hclient hnext
    obtain ⟨l, l', hc, hd, hlists⟩ := (I.tasks g (List.mem_of_getElem? hg)).flowing hclient hnext
    obtain ⟨x, hx, hxl⟩ := J.handlers k g _ _ _ hg (Handler.mem_of_lastHanded hc)
    obtain ⟨y, hy, hyl⟩ := J.handlers k g _ _ _ hg (Handler.mem_of_lastHanded hd)
    rw [held_of_get hx] at hm
    rw [held_of_get hy] at hn
    cases hm
    cases hn
    -- both agents hold what this handler has told them last
    cases hc.symm.trans (hxl hsole)
    cases hd.symm.trans (hyl hsole)
    rw [← (I.handed _ x hx).2, ← (I.handed _ y hy).2]
    rcases hlists with heq | ⟨hnone, m, n, hreads, hm, hn⟩
    · exact heq
    · rw [hm, hn, hlost hnone m n hreads]

/-- A driver that alone sends lists for its stream: its own agent holds the one it has
read. -/
theorem steady_driver {i : ℕ} {now : Time} (I : s.ListInv) (J : s.SentInv)
    (h : s.Undisturbed (.forward (.driver i now))) : s.Steady (.forward (.driver i now)) := by
  intro c d sid hfl _ m n hm hn
  cases hfl with
  | @granted _ p _ a b y z rr hi hpc hp =>
    obtain ⟨x, hx, hlist⟩ := J.drivers i a p y z rr hi hpc
    rw [held_of_get hx] at hm
    cases hm
    obtain ⟨n', hn', hvalid⟩ := I.rounds i a rr hi (by rw [hpc]; rfl)
    cases hn.symm.trans hn'
    rw [← (I.handed _ x hx).2, hlist (h a p y z rr hi hpc)]
    exact hvalid.2

/-- Where nobody sends lists for the stream, an agent holds what its connection was
acknowledged with. -/
theorem SentInv.held_eq_hello (J : s.SentInv) {c : AgentConn} {sid : UInt64}
    (hnobody : ∀ src, ¬ s.Sends sid src) : s.held c sid = s.hello[c.id]? := by
  unfold held
  cases hget : s.handed.get (c.uri, sid) with
  | none => exact Option.none_or
  | some x =>
    obtain ⟨src, hsrc⟩ := J.source c.uri sid x hget
    exact absurd hsrc (hnobody src)

/-- A resumed half whose stream nobody sends lists for. -/
theorem steady_resumed {i : ℕ} (J : s.SentInv) (h : s.Undisturbed (.resume (.handler i))) :
    s.Steady (.resume (.handler i)) := by
  intro x y sid hfl m n hm hn
  cases hfl with
  | @resumed _ p c d a b hi hstart hp hc hd =>
    obtain ⟨hnobody, hsteady⟩ := h a p c d hi hstart hc hd
    rw [J.held_eq_hello hnobody] at hm hn
    obtain ⟨x, hx, rfl⟩ := Option.map_eq_some_iff.mp hm
    obtain ⟨y, hy, rfl⟩ := Option.map_eq_some_iff.mp hn
    exact hsteady x y hx hy

/-- **A stream that is served by one, under one list.** -/
theorem steady_of_undisturbed (I : s.ListInv) (J : s.SentInv) (h : s.Undisturbed e) :
    s.Steady e := by
  by_cases hflows : ∃ c d sid, s.Flows e c d sid
  · obtain ⟨c, d, sid, hfl⟩ := hflows
    cases hfl with
    | opened => exact steady_task I J h
    | granted => exact steady_driver I J h
    | resumed => exact steady_resumed J h
  · have hno : ∀ {c d sid}, ¬ s.Flows e c d sid := fun hfl => hflows ⟨_, _, _, hfl⟩
    unfold Steady
    split
    · exact fun _ _ _ hfl => absurd hfl hno
    · exact fun _ _ _ hfl => absurd hfl hno

end RelocationState

open RelocationState in
/-- **When the two agents of every stream hold one list.** In any run, from its
start and whenever the list changes, the agents of every stream that is spliced
or granted agree when bytes can flow, exactly when the list is steady wherever
the relay relies on it. It is so for every stream that is served by one handler
or driver, without a change of the list between its reads. -/
theorem lists_agree_iff {cfg : RelocationConfig} {idleTTL pendingTTL start : Time}
    {h : List (Transition RelocationState RelocationEvent)} {s : RelocationState}
    (hx : (relocationMachine cfg idleTTL pendingTTL start).Exec h s) :
    ((∀ t ∈ h, Agrees t) ↔ ∀ t ∈ h, t.pre.Steady t.ev)
      ∧ ∀ t ∈ h, t.pre.Undisturbed t.ev → Agrees t := by
  have hiff : ∀ t ∈ h, Agrees t ↔ t.pre.Steady t.ev := by
    intro t ht
    obtain ⟨hreach, hstep⟩ := hx.step_of_mem ht
    exact agrees_iff_steady (listInv_of_reachable hreach) (sentInv_of_reachable hreach)
      (ForwardState.halfLinks_of_reachable (reachable_parts hreach).1) hstep
  refine ⟨forall₂_congr hiff, fun t ht hund => (hiff t ht).mpr ?_⟩
  obtain ⟨hreach, -⟩ := hx.step_of_mem ht
  exact steady_of_undisturbed (listInv_of_reachable hreach) (sentInv_of_reachable hreach) hund

/-! ## Where the list changes -/

/-- A relay without a policy engine, whose agents are all of one tenant. -/
def relocationR1 : RelocationConfig where
  relayID := go "outrelay://acme/relay/r1"
  parse := fun _ => some ⟨go "acme", false⟩
  forward := false
  region := go "eu"
  policy := false
  pool := false
  migrated := false
  endpoint := []

/-- The fleet changes between the connections of two agents, who then migrate
stream `9` to this relay; the handler of the second half is about to splice. -/
def migrateAfterChange : List RelocationEvent :=
  [.helloAck agentC, .register 0, .forward (.relay (.track 0)),
    .setSuccessors [go "192.0.2.2:7443"],
    .helloAck agentP, .register 0, .forward (.relay (.track 1)),
    .resumeHalf 0 .migrate 9 0 0, .resumeHalf 1 .migrate 9 0 0,
    .resume (.handler 1), .resume (.handler 1), .resume (.handler 1), .resume (.handler 1)]

/-- The answers to a handler whose stream `agentP` accepts. -/
def acceptsStream : ∀ o : EdgeOp, o.Ans :=
  Handler.succeeding acceptedBy (fun _ _ _ => ⟨.allow, [], .allowed, .splice⟩)
    [⟨agentP.val, relocationR1.relayID, []⟩] connP

/-- The next `n` operations of the handler of a stream that `agentP` accepts. -/
def acceptedFor (n : ℕ) : List RelocationEvent := List.replicate n (.task 0 acceptsStream)

/-- The provider of a stream has connected twice. The stream is opened over the
second connection; before the provider accepts it, the fleet changes and the
first connection is torn down, and with it the registry entry of the second. The
handler is about to splice. -/
def openAcrossChange : List RelocationEvent :=
  [.helloAck agentC, .register 0, .forward (.relay (.track 0)),
    .helloAck agentP, .register 0, .forward (.relay (.track 1)),
    .helloAck agentP, .register 0, .forward (.relay (.track 2)), .openStream 0 openPayments]
  ++ acceptedFor 6
  ++ [.setSuccessors [go "192.0.2.2:7443"], .forward (.relay (.untrack 1)),
    .forward (.relay (.unregister 1))]
  ++ acceptedFor 4

/-- The same relay with its forwarding plane. -/
def relocationR2 : RelocationConfig :=
  { relocationR1 with forward := true, endpoint := go "192.0.2.1:7444" }

/-- The next `n` steps of the driver of the half `i`. -/
def drivenFor (i n : ℕ) : List RelocationEvent :=
  List.replicate n (.forward (.driver i 1))

/-- Two agents resume stream `9` in forward mode. Its driver has read the list and
told the provider when the fleet changes and both agents send `FORWARD_RESUME`
again; the second driver tells both the new list. The first is about to send the
second grant of its round. -/
def resumeTwiceAcrossChange : List RelocationEvent :=
  [.helloAck agentC, .register 0, .forward (.relay (.track 0)),
    .helloAck agentP, .register 0, .forward (.relay (.track 1)),
    .forward (.submit 0 9), .forward (.submit 1 9)]
  ++ drivenFor 1 8
  ++ [.setSuccessors [go "192.0.2.2:7443"], .forward (.submit 0 9), .forward (.submit 1 9)]
  ++ drivenFor 3 9

/-- Two agents that hold different lists. -/
theorem RelocationState.not_agrees {s s' : RelocationState} {e : RelocationEvent}
    {c d : AgentConn} {sid : UInt64} {l l' : List GoString} (hfl : s.Flows e c d sid)
    (hc : (s'.held c sid).map Handout.list = some l)
    (hd : (s'.held d sid).map Handout.list = some l') (hne : l ≠ l') :
    ¬ RelocationState.Agrees ⟨s, e, s'⟩ := by
  intro hagree
  obtain ⟨m, hm, hm'⟩ := hagree c d sid hfl
  cases hc.symm.trans hm
  cases hd.symm.trans hm'
  exact hne rfl

open RelocationState in
/-- Two agents migrate a stream while they hold different lists; a stream is opened
whose provider is not found when its new list is due; and two drivers serve one
stream, of which the one with the old list is last. -/
theorem lists_differ_after_change :
    (∃ s s', (relocationMachine relocationR1 100 30 0).Reachable s
      ∧ s.step relocationR1 (.resume (.handler 1)) = some s'
      ∧ ¬ Agrees ⟨s, .resume (.handler 1), s'⟩
      ∧ (s'.held ⟨1, agentP.val⟩ 9).map Handout.list = some [go "192.0.2.2:7443"]
      ∧ (s'.held ⟨0, agentC.val⟩ 9).map Handout.list = some [])
    ∧ (∃ s s', (relocationMachine relocationR1 100 30 0).Reachable s
      ∧ s.step relocationR1 (.task 0 acceptsStream) = some s'
      ∧ ¬ Agrees ⟨s, .task 0 acceptsStream, s'⟩
      ∧ (s'.held connC 7).map Handout.list = some [go "192.0.2.2:7443"]
      ∧ (s'.held ⟨2, agentP.val⟩ 7).map Handout.list = some [])
    ∧ ∃ s s', (relocationMachine relocationR2 100 30 0).Reachable s
      ∧ s.step relocationR2 (.forward (.driver 1 1)) = some s'
      ∧ ¬ Agrees ⟨s, .forward (.driver 1 1), s'⟩
      ∧ (s'.held ⟨1, agentP.val⟩ 9).map Handout.list = some [go "192.0.2.2:7443"]
      ∧ (s'.held ⟨0, agentC.val⟩ 9).map Handout.list = some [] := by
  refine ⟨?_, ?_, ?_⟩
  · obtain ⟨s, s', a, b, hrun, hstep, ha, hstart, hb, hc, hd, huri, huri', hid, hheld, hheld'⟩ :
        ∃ s s' a b,
        (relocationMachine relocationR1 100 30 0).run migrateAfterChange
          (relocationMachine relocationR1 100 30 0).init = some s
        ∧ s.step relocationR1 (.resume (.handler 1)) = some s'
        ∧ s.resume.halves[1]? = some a ∧ a.startsSplice = some 0 ∧ s.resume.halves[0]? = some b
        ∧ s.origin[1]? = some 1 ∧ s.origin[0]? = some 0
        ∧ a.uri = agentP.val ∧ b.uri = agentC.val ∧ a.id = 9
        ∧ (s'.held ⟨1, agentP.val⟩ 9).map Handout.list = some [go "192.0.2.2:7443"]
        ∧ (s'.held ⟨0, agentC.val⟩ 9).map Handout.list = some [] :=
      ⟨_, _, _, _, rfl, rfl, rfl, rfl, rfl, rfl, rfl, rfl, rfl, rfl, rfl, rfl⟩
    obtain ⟨h, hx, -⟩ := Machine.exec_of_run _ _ hrun
    have hfl : s.Flows (.resume (.handler 1)) ⟨1, a.uri⟩ ⟨0, b.uri⟩ a.id :=
      .resumed ha hstart hb hc hd
    rw [huri, huri', hid] at hfl
    exact ⟨s, s', ⟨h, hx⟩, hstep, not_agrees hfl hheld hheld' nofun, hheld, hheld'⟩
  · have hlast : ((relocationMachine relocationR1 100 30 0).run openAcrossChange
        (relocationMachine relocationR1 100 30 0).init).bind (fun s =>
          (s.step relocationR1 (.task 0 acceptsStream)).bind (fun s' => (s.tasks[0]?).map (fun g =>
            (g.client, g.next, (s'.held connC 7).map Handout.list,
              (s'.held ⟨2, agentP.val⟩ 7).map Handout.list))))
        = some (some (connC, 7), some (.splice .consumer (.provider ⟨2, agentP.val⟩)),
          some [go "192.0.2.2:7443"], some []) := rfl
    obtain ⟨s, hrun, hlast⟩ := Option.bind_eq_some_iff.mp hlast
    obtain ⟨s', hstep, hlast⟩ := Option.bind_eq_some_iff.mp hlast
    obtain ⟨g, hg, hlast⟩ := Option.map_eq_some_iff.mp hlast
    simp only [Prod.mk.injEq] at hlast
    obtain ⟨hclient, hnext, hcaller, hprov⟩ := hlast
    obtain ⟨h, hx, -⟩ := Machine.exec_of_run _ _ hrun
    exact ⟨s, s', ⟨h, hx⟩, hstep,
      not_agrees (.opened hg hclient (Or.inl hnext)) hcaller hprov nofun, hcaller, hprov⟩
  · have hlast : ((relocationMachine relocationR2 100 30 0).run resumeTwiceAcrossChange
        (relocationMachine relocationR2 100 30 0).init).bind (fun s =>
          (s.step relocationR2 (.forward (.driver 1 1))).bind (fun s' =>
            (s.forward.halves[1]?).bind (fun a => (s.forward.halves[0]?).map (fun b =>
              (a.driver, (⟨a.ac, a.agentURI.val⟩ : AgentConn), a.id,
                (⟨b.ac, b.agentURI.val⟩ : AgentConn),
                (s'.held ⟨1, agentP.val⟩ 9).map Handout.list,
                (s'.held ⟨0, agentC.val⟩ 9).map Handout.list)))))
        = some (.writePeer 0 1 2 [], ⟨1, agentP.val⟩, 9, ⟨0, agentC.val⟩,
          some [go "192.0.2.2:7443"], some []) := rfl
    obtain ⟨s, hrun, hlast⟩ := Option.bind_eq_some_iff.mp hlast
    obtain ⟨s', hstep, hlast⟩ := Option.bind_eq_some_iff.mp hlast
    obtain ⟨a, ha, hlast⟩ := Option.bind_eq_some_iff.mp hlast
    obtain ⟨b, hb, hlast⟩ := Option.map_eq_some_iff.mp hlast
    simp only [Prod.mk.injEq] at hlast
    obtain ⟨hpc, hprov, hid, hcaller, hheld, hheld'⟩ := hlast
    obtain ⟨h, hx, -⟩ := Machine.exec_of_run _ _ hrun
    have hfl : s.Flows (.forward (.driver 1 1)) ⟨a.ac, a.agentURI.val⟩ ⟨b.ac, b.agentURI.val⟩
        a.id := .granted ha hpc hb
    rw [hprov, hid, hcaller] at hfl
    exact ⟨s, s', ⟨h, hx⟩, hstep, not_agrees hfl hheld hheld' nofun, hheld, hheld'⟩

/-- A handler that does not start a splice in this step. -/
theorem RelocationState.undisturbed_of_not_starts {s : RelocationState} {i : ℕ}
    (h : (s.resume.halves[i]?).bind Half.startsSplice = none) :
    s.Undisturbed (.resume (.handler i)) := by
  intro a p c d hi hstart
  rw [hi, Option.bind_some, hstart] at h
  cases h

/-- The fleet has changed before both connect, and two agents migrate stream
`9`. -/
def migrateUnderOneList : List RelocationEvent :=
  [.setSuccessors [go "192.0.2.2:7443"],
    .helloAck agentC, .register 0, .forward (.relay (.track 0)),
    .helloAck agentP, .register 0, .forward (.relay (.track 1)),
    .resumeHalf 0 .migrate 9 0 0, .resumeHalf 1 .migrate 9 0 0]

open RelocationState in
/-- Two agents that hold one list are spliced. -/
theorem one_list_spliced :
    ∃ h s, (relocationMachine relocationR1 100 30 0).Exec h s ∧ (∀ t ∈ h, Agrees t)
      ∧ s.resume.halves.map Half.handler = [.recv, .splicing 0] := by
  obtain ⟨s₁, s₂, s₃, s₄, s₅, s₆, hrun, h₂, h₃, h₄, h₅, h₆, hn₁, hn₂, hn₃, hn₄, htasks, hhalves,
      hhello, hlast⟩ : ∃ s₁ s₂ s₃ s₄ s₅ s₆,
      (relocationMachine relocationR1 100 30 0).run migrateUnderOneList
        (relocationMachine relocationR1 100 30 0).init = some s₁
      ∧ (relocationMachine relocationR1 100 30 0).step s₁ (.resume (.handler 1)) = some s₂
      ∧ (relocationMachine relocationR1 100 30 0).step s₂ (.resume (.handler 1)) = some s₃
      ∧ (relocationMachine relocationR1 100 30 0).step s₃ (.resume (.handler 1)) = some s₄
      ∧ (relocationMachine relocationR1 100 30 0).step s₄ (.resume (.handler 1)) = some s₅
      ∧ (relocationMachine relocationR1 100 30 0).step s₅ (.resume (.handler 1)) = some s₆
      ∧ (s₁.resume.halves[1]?).bind Half.startsSplice = none
      ∧ (s₂.resume.halves[1]?).bind Half.startsSplice = none
      ∧ (s₃.resume.halves[1]?).bind Half.startsSplice = none
      ∧ (s₄.resume.halves[1]?).bind Half.startsSplice = none
      ∧ s₅.tasks = [] ∧ s₅.forward.halves = []
      ∧ s₅.hello = List.replicate 2 ⟨[go "192.0.2.2:7443"], 1⟩
      ∧ s₆.resume.halves.map Half.handler = [.recv, .splicing 0] :=
    ⟨_, _, _, _, _, _, rfl, rfl, rfl, rfl, rfl, rfl, rfl, rfl, rfl, rfl, rfl, rfl, rfl, rfl⟩
  have hnobody : ∀ sid src, ¬ s₅.Sends sid src := by
    rintro sid (k | i) ⟨g, n, hg⟩
    · obtain ⟨l, hg, -⟩ := hg
      rw [htasks] at hg
      cases hg
    · rw [hhalves] at hg
      cases hg.1
  have hstamp : ∀ {c : ℕ} {x : Handout}, s₅.hello[c]? = some x → x.stamp = 1 := by
    intro c x hx
    rw [hhello] at hx
    rw [List.eq_of_mem_replicate (List.mem_of_getElem? hx)]
  obtain ⟨h₁, hx₁, hev⟩ := Machine.exec_of_run _ _ hrun
  have hx := ((((hx₁.snoc h₂).snoc h₃).snoc h₄).snoc h₅).snoc h₆
  refine ⟨_, _, hx, fun t ht => (lists_agree_iff hx).2 t ht ?_, hlast⟩
  simp only [List.mem_append, List.mem_singleton] at ht
  rcases ht with ((((ht | rfl) | rfl) | rfl) | rfl) | rfl
  · have hmem := List.mem_map_of_mem (f := Transition.ev) ht
    rw [hev] at hmem
    simp only [migrateUnderOneList, List.mem_cons, List.not_mem_nil, or_false] at hmem
    rcases hmem with h | h | h | h | h | h | h | h | h <;> rw [h] <;> trivial
  · exact undisturbed_of_not_starts hn₁
  · exact undisturbed_of_not_starts hn₂
  · exact undisturbed_of_not_starts hn₃
  · exact undisturbed_of_not_starts hn₄
  · intro a p c d _ _ _ _
    exact ⟨hnobody a.id, fun x y hx hy => by rw [hstamp hx, hstamp hy]⟩
