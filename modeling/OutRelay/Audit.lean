import OutRelay.Duties
import OutRelay.Outbox
import OutRelay.RelayNetwork

/-!
# The audit trail

After each policy evaluation a handler gives the decision to the audit emitter,
and one goroutine, `Emitter.Run`, sends what it is given to the controller. A
handler does not wait: between the two is a queue of bounded depth, and where it
is full the event is dropped. An event whose call to the controller fails is
logged and dropped as well.

So what the controller has recorded is incomplete where the relay is busy or the
controller is away. This module says what is where. Over any number of streams,
in any order of the steps of their handlers and of the emitter, every decision of
the policy engine is in exactly one place (`AuditState.decided_perm`): recorded,
lost with a failed call, in the call to the controller, in the queue, dropped with
a full queue, or in the hands of the handler that has just asked. Nothing else is
anywhere, nothing is there twice, and what is recorded is recorded in the order of
the emissions. And a provider hears of a stream of an agent of this relay only
when the handler has emitted both decisions that let it pass
(`AuditState.told_of_emitted`); a stream from a peer relay was decided on there.

The part about the single handler is that it audits each decision, as it was
made, before it does anything else (`Handler.Accounted`).
-/

/-- `AuditEvent`. -/
structure AuditEvent where
  tsUnixMs : Int
  tenant : GoString
  caller : GoString
  target : GoString
  method : GoString
  decision : Decision
  reason : GoString
  deriving DecidableEq

/-- The event without its time. -/
def AuditEvent.untimed (x : AuditEvent) : AuditEvent := { x with tsUnixMs := 0 }

/-- The event that `recordAudit` builds at time `ts`. -/
def auditEvent (cfg : RelayConfig) (ts : Int) (caller target method : GoString) (r : Result) :
    AuditEvent where
  tsUnixMs := ts
  tenant := cfg.tenantOf caller
  caller := caller
  target := target
  method := method
  decision := if r.decision = .deny then .deny else .allow
  reason := r.reason

/-! ## The emitter -/

/-- `QueueDepth`. -/
def queueDepth : ℕ := 1024

/-- Where `Emitter.Run` is: in its `select`, in the call to the controller, or
returned. -/
inductive RunPoint
  | select
  | record (ev : AuditEvent)
  | returned

/-- `Emitter`, with its goroutine. -/
structure Emitter where
  queue : Outbox queueDepth AuditEvent
  point : RunPoint

namespace Emitter

/-- `NewEmitter`. -/
def newEmitter : Emitter := ⟨.make, .select⟩

/-- `Emit`. -/
def emit (e : Emitter) (ev : AuditEvent) : Emitter := { e with queue := e.queue.offer ev }

/-- A step of `Run`: its `select` takes an event, or sees that the context is
cancelled; or the call to the controller returns. -/
inductive RunStep
  | take
  | called (err : Option GoString)
  | stop

/-- `Run`. An error of the call is logged, the event is gone, and the loop goes
on. -/
def run (cancelled : Bool) (e : Emitter) : RunStep → Option Emitter
  | .take =>
    match e.point with
    | .select => e.queue.take.map fun p => ⟨p.2, .record p.1⟩
    | _ => none
  | .called _ =>
    match e.point with
    | .record _ => some { e with point := .select }
    | _ => none
  | .stop =>
    match e.point with
    | .select => if cancelled then some { e with point := .returned } else none
    | _ => none

/-- The event that the call to the controller is about. -/
def current (e : Emitter) : Option AuditEvent :=
  match e.point with
  | .record ev => some ev
  | _ => none

/-- What the emitter has and has not yet seen through, the oldest first. -/
def pending (e : Emitter) : List AuditEvent := e.current.toList ++ e.queue.waiting

/-- The event whose call returns in a step, with or without an error. -/
def calledBy (e : Emitter) : RunStep → Option AuditEvent
  | .called _ => e.current
  | _ => none

theorem length_pending_le (e : Emitter) : e.pending.length ≤ queueDepth + 1 := by
  have hcur : e.current.toList.length ≤ 1 := by
    cases e.current with
    | none => exact Nat.zero_le 1
    | some ev => exact Nat.le_refl 1
  have hwait : e.queue.waiting.length ≤ queueDepth := Outbox.length_waiting_le
  unfold pending
  rw [List.length_append]
  omega

theorem pending_emit {e : Emitter} {ev : AuditEvent} (h : e.queue.hasRoom = true) :
    (e.emit ev).pending = e.pending ++ [ev] := by
  unfold pending emit
  rw [Outbox.waiting_offer_of_hasRoom h, List.append_assoc]
  rfl

theorem emit_of_not_hasRoom {e : Emitter} {ev : AuditEvent} (h : e.queue.hasRoom = false) :
    e.emit ev = e := by
  unfold emit
  rw [Outbox.offer_of_not_hasRoom h]

/-- **`Run` takes from one end.** -/
theorem pending_run {cancelled : Bool} {e e' : Emitter} {st : RunStep}
    (h : e.run cancelled st = some e') :
    (e.calledBy st).toList ++ e'.pending = e.pending := by
  obtain ⟨queue, point⟩ := e
  cases st with
  | take =>
    cases point with
    | select =>
      obtain ⟨⟨ev, q⟩, htake, rfl⟩ := Option.map_eq_some_iff.mp h
      exact (Outbox.waiting_of_take htake).symm
    | record ev => cases h
    | returned => cases h
  | called err =>
    cases point with
    | select => cases h
    | record ev =>
      cases h
      rfl
    | returned => cases h
  | stop =>
    cases point with
    | select =>
      have h : (if cancelled then some (⟨queue, .returned⟩ : Emitter) else none) = some e' := h
      split_ifs at h
      cases h
      rfl
    | record ev => cases h
    | returned => cases h

end Emitter

/-- `recordAudit`, where the emitter may be missing. -/
def recordAudit (cfg : RelayConfig) (audit : Option Emitter) (ts : Int)
    (caller target method : GoString) (r : Result) : Option Emitter :=
  audit.map (·.emit (auditEvent cfg ts caller target method r))

/-! ## One handler -/

namespace Handler

/-- The event that an operation emits at time `ts`. -/
def emits (cfg : RelayConfig) (ts : Int) : EdgeOp → Option AuditEvent
  | .recordAudit caller target method r => some (auditEvent cfg ts caller target method r)
  | _ => none

/-- The event that a decision of the policy engine asks for. -/
def decided (cfg : RelayConfig) : EdgeEvent → Option AuditEvent
  | ⟨.evaluate caller target method, r⟩ => some (auditEvent cfg 0 caller target method r)
  | _ => none

/-- The event that has been emitted for an event of the handler. -/
def audited (cfg : RelayConfig) (ev : EdgeEvent) : Option AuditEvent := emits cfg 0 ev.op

/-- The operation has nothing to do with decisions. -/
def isNeutral : EdgeOp → Bool
  | .evaluate _ _ _ | .recordAudit _ _ _ _ => false
  | _ => true

/-- **The duties of a handler**: each decision of the policy engine is to be emitted. -/
def auditDuties (cfg : RelayConfig) : Duties edge AuditEvent := ⟨decided cfg, emits cfg 0⟩

/-- The procedure emits its decisions at once. -/
abbrev Accounted (cfg : RelayConfig) {α : Type} (p : Handler α) : Prop :=
  (auditDuties cfg).Prompt [] p

variable {cfg : EdgeConfig} {c : RelayConfig} {caller prov : AgentConn} {o : OpenStream}
  {m : IncomingStream} {α β : Type} {p : Handler α}

theorem accounted_of_neutral (hp : p.Within fun o => isNeutral o = true) : Accounted c p := by
  refine Duties.prompt_of_within (Prog.Sites.imp hp fun _ op hop => ⟨fun r => ?_, ?_⟩)
  · cases op <;> first | rfl | cases hop
  · cases op <;> first | rfl | cases hop

/-- **A decision that is audited at once.** -/
theorem accounted_check {caller target method : GoString} {f : Result → Handler α}
    (hf : ∀ r, Accounted c (f r)) : Accounted c (do
      let r ← perform (.evaluate caller target method)
      perform (.recordAudit caller target method r)
      f r) :=
  Duties.Prompt.call rfl fun r => Duties.Prompt.call rfl fun _ => hf r

theorem isNeutral_of_isServing (op : EdgeOp) (h : isServing op = true) : isNeutral op = true := by
  unfold isServing at h
  split at h
  all_goals first | rfl | cases h

theorem openIncoming_neutral {service method uri : GoString} {streamID : UInt64} :
    (openIncoming prov service method uri streamID).Within fun o => isNeutral o = true :=
  openIncoming_within rfl rfl (fun _ => rfl) rfl

theorem dispatchStream_neutral {p2pMode : P2PMode} {relayMode : RelayMode} :
    (dispatchStream cfg caller prov o p2pMode relayMode).Within fun o => isNeutral o = true := by
  rw [dispatchStream_eq]
  exact Prog.Within.bind openIncoming_neutral fun r => serveOpened_within isNeutral_of_isServing

theorem resolve_neutral {uri name : GoString} :
    (resolve cfg uri name).Within fun o => isNeutral o = true :=
  resolve_within (fun _ _ _ => rfl) fun _ => rfl

theorem isNeutral_of_isForwarding (op : EdgeOp) (h : isForwarding op = true) :
    isNeutral op = true := by
  unfold isForwarding at h
  split at h
  all_goals first | rfl | cases h

theorem forwardToPeer_neutral {remote : Remote} :
    (forwardToPeer caller o remote).Within fun o => isNeutral o = true :=
  forwardToPeer_within isNeutral_of_isServing isNeutral_of_isForwarding

theorem routeStream_accounted {p2pMode : P2PMode} {relayMode : RelayMode} :
    Accounted c (routeStream cfg caller o p2pMode relayMode) := by
  refine Duties.Prompt.bind (accounted_of_neutral resolve_neutral) fun r => ?_
  match r with
  | .error (.providerRemote remote) =>
    dsimp only
    split_ifs
    · exact accounted_of_neutral (reject_within isNeutral_of_isServing)
    · exact accounted_of_neutral forwardToPeer_neutral
  | .error .noTenant | .error (.rpcFailed _) | .error .serviceNotFound =>
    exact accounted_of_neutral (reject_within isNeutral_of_isServing)
  | .ok prov =>
    dsimp only
    split_ifs
    · refine accounted_check fun callee => ?_
      split_ifs
      · exact accounted_of_neutral (reject_within isNeutral_of_isServing)
      · exact accounted_of_neutral dispatchStream_neutral
    · exact accounted_of_neutral dispatchStream_neutral

/-- **The handler of an agent's stream audits each decision at once.** -/
theorem handleConsumerStream_accounted : Accounted c (handleConsumerStream cfg caller) := by
  refine Duties.Prompt.bind (Duties.Prompt.bind (accounted_of_neutral (Prog.within_perform rfl))
    fun r => ?_) fun _ => accounted_of_neutral (Prog.within_perform rfl)
  match r with
  | .ok (.openStream (some o)) =>
    show Accounted c (handleOpenStream cfg caller o)
    unfold handleOpenStream
    split_ifs
    · refine accounted_check fun dec => ?_
      split_ifs
      · exact accounted_of_neutral (reject_within isNeutral_of_isServing)
      · exact routeStream_accounted
    · exact routeStream_accounted
  | .ok (.streamResume _) | .ok (.migrateToRelay _) =>
    exact accounted_of_neutral (Prog.within_perform rfl)
  | .error err | .ok (.openStream none) | .ok (.forwardStream _) | .ok .streamAccept
  | .ok (.streamReject _ _) | .ok (.other _) => exact Duties.prompt_pure

/-- The handler of a forwarded stream makes no decision. -/
theorem handleForwardedStream_accounted : Accounted c (handleForwardedStream cfg) := by
  have hreject : ∀ {code reason}, (writeStreamReject .peer code reason).Within
      fun o => isNeutral o = true :=
    Prog.Within.bind (Prog.within_perform rfl) fun _ => Prog.within_pure
  refine accounted_of_neutral (Prog.Within.bind (Prog.Within.bind (Prog.within_perform rfl)
    fun r => ?_) fun _ => Prog.within_perform rfl)
  match r with
  | .ok (.forwardStream (some m)) =>
    refine Prog.Within.bind resolve_neutral fun r => ?_
    cases r with
    | error err => exact hreject
    | ok prov =>
      refine Prog.Within.bind openIncoming_neutral fun r => ?_
      cases r with
      | error err => exact hreject
      | ok u =>
        refine Prog.Within.bind (Prog.Within.bind (Prog.within_perform rfl) fun r => ?_)
          fun _ => Prog.within_perform rfl
        match r with
        | .ok .streamAccept =>
          refine Prog.Within.bind (Prog.within_perform rfl) fun r => ?_
          cases r with
          | error err => exact Prog.within_pure
          | ok u => exact Prog.Within.bind (Prog.within_perform rfl) fun _ => Prog.within_pure
        | .error err | .ok (.streamReject _ _) | .ok (.openStream _) | .ok (.forwardStream _)
        | .ok (.streamResume _) | .ok (.migrateToRelay _) | .ok (.other _) => exact hreject
  | .error err | .ok (.openStream _) | .ok (.forwardStream none) | .ok .streamAccept
  | .ok (.streamReject _ _) | .ok (.streamResume _) | .ok (.migrateToRelay _) | .ok (.other _) =>
    exact Prog.within_pure

/-! ### Before a provider is told -/

/-- **The policy of the callee has let the stream through**, where there is one, when
a provider is told. -/
def CalleeAllowed (cfg : EdgeConfig) (caller : AgentConn) (tr : List EdgeEvent) (op : EdgeOp) :
    Prop :=
  ∀ prov m, op = .writeFrame (.provider prov) (.incomingStream m) → cfg.policy = true →
    ∃ callee : Result, ⟨.evaluate prov.uri caller.uri m.method, callee⟩ ∈ tr
      ∧ callee.decision ≠ .deny

theorem framed_calleeAllowed : Framed (CalleeAllowed cfg caller) := by
  intro tr tr' op _ h prov m hop hpolicy
  obtain ⟨callee, hmem, hallow⟩ := h prov m hop hpolicy
  exact ⟨callee, List.mem_append_right _ hmem, hallow⟩

theorem calleeAllowed_of_within (hp : p.Within fun op => ∀ prov m,
    op ≠ .writeFrame (.provider prov) (.incomingStream m)) :
    ContactSites (CalleeAllowed cfg caller) p :=
  Prog.Sites.imp hp fun _ _ hne _ prov m hop => absurd hop (hne prov m)

theorem ne_tell_of_isServing (op : EdgeOp) (h : isServing op = true) :
    ∀ prov m, op ≠ .writeFrame (.provider prov) (.incomingStream m) := by
  rintro prov m rfl
  cases h

theorem ne_tell_of_isForwarding (op : EdgeOp) (h : isForwarding op = true) :
    ∀ prov m, op ≠ .writeFrame (.provider prov) (.incomingStream m) := by
  rintro prov m rfl
  cases h

/-- After the check of the callee, the provider that was checked is told. -/
theorem dispatchStream_told {p2pMode : P2PMode} {relayMode : RelayMode} (tr : List EdgeEvent)
    (h : cfg.policy = true → ∃ callee : Result,
      ⟨.evaluate prov.uri caller.uri o.method, callee⟩ ∈ tr ∧ callee.decision ≠ .deny) :
    (dispatchStream cfg caller prov o p2pMode relayMode).Sites fun tr' op =>
      isContact op = true → CalleeAllowed cfg caller (tr ++ tr') op := by
  rw [dispatchStream_eq, Prog.sites_bind]
  refine ⟨openIncoming_contacts fun tr' resumeRelays _ => ?_, Prog.all_iff.mpr fun _ r _ => ?_⟩
  · rintro prov' m hop hpolicy
    cases hop
    obtain ⟨callee, hmem, hallow⟩ := h hpolicy
    exact ⟨callee, List.mem_append_left _ hmem, hallow⟩
  · refine Prog.Sites.imp (serveOpened_within ne_tell_of_isServing) fun _ _ hne _ => ?_
    exact fun prov' m hop => absurd hop (hne prov' m)

theorem routeStream_told {p2pMode : P2PMode} {relayMode : RelayMode} :
    ContactSites (CalleeAllowed cfg caller) (routeStream cfg caller o p2pMode relayMode) := by
  refine ContactSites.bind_inert framed_calleeAllowed resolve_inert fun r => ?_
  match r with
  | .error (.providerRemote remote) =>
    dsimp only
    split_ifs
    · exact calleeAllowed_of_within (reject_within ne_tell_of_isServing)
    · exact calleeAllowed_of_within
        (forwardToPeer_within ne_tell_of_isServing ne_tell_of_isForwarding)
  | .error .noTenant | .error (.rpcFailed _) | .error .serviceNotFound =>
    exact calleeAllowed_of_within (reject_within ne_tell_of_isServing)
  | .ok prov =>
    dsimp only
    split_ifs with hpolicy
    · refine Prog.sites_call.mpr ⟨nofun, fun callee => Prog.sites_call.mpr ⟨nofun, fun _ => ?_⟩⟩
      split_ifs with hdeny
      · exact Prog.Sites.imp (reject_within ne_tell_of_isServing) fun _ _ hne _ prov m hop =>
          absurd hop (hne prov m)
      · exact dispatchStream_told [_, _] fun _ => ⟨callee, List.mem_cons_self, hdeny⟩
    · exact dispatchStream_told [] fun hp => absurd hp hpolicy

/-- **A provider is told after its policy has let the stream through.** -/
theorem handleConsumerStream_told :
    ContactSites (CalleeAllowed cfg caller) (handleConsumerStream cfg caller) := by
  refine ContactSites.bind_done ?_ fun _ => inert_perform rfl
  refine ContactSites.bind_inert framed_calleeAllowed (inert_perform rfl) fun r => ?_
  match r with
  | .ok (.openStream (some o)) =>
    show ContactSites (CalleeAllowed cfg caller) (handleOpenStream cfg caller o)
    unfold handleOpenStream
    split_ifs
    · refine ContactSites.bind_inert framed_calleeAllowed (inert_perform rfl) fun dec => ?_
      refine ContactSites.bind_inert framed_calleeAllowed (inert_perform rfl) fun _ => ?_
      split_ifs
      · exact contactSites_of_inert rejectConsumer_inert
      · exact routeStream_told
    · exact routeStream_told
  | .ok (.streamResume _) | .ok (.migrateToRelay _) =>
    exact contactSites_of_inert (inert_perform rfl)
  | .error err | .ok (.openStream none) | .ok (.forwardStream _) | .ok .streamAccept
  | .ok (.streamReject _ _) | .ok (.other _) => exact Prog.sites_pure

end Handler

/-! ## The relay -/

/-- A stream to handle: of an agent, or from a peer relay. -/
inductive HandlerTask
  | consumer (caller : AgentConn)
  | forwarded

/-- The emitter of the relay, and whether the context of `Run` is cancelled. -/
structure AuditTables where
  audit : Option Emitter
  cancelled : Bool

/-- What happens besides the handlers. -/
inductive AuditStep
  | run (st : Emitter.RunStep)
  | cancel

/-- **The handlers and the emitter of a relay.** An emission is at a time that is the
choice of the step. -/
def auditService (cfg : EdgeConfig) : Service edge AuditTables HandlerTask Int AuditStep where
  init := ⟨some .newEmitter, false⟩
  code
    | .consumer caller => Handler.handleConsumerStream cfg caller
    | .forwarded => Handler.handleForwardedStream cfg
  act
    | ts, s, ⟨.recordAudit caller target method r, _⟩ =>
      some { s with audit := recordAudit cfg.toRelayConfig s.audit ts caller target method r }
    | _, s, _ => some s
  env
    | s, .run st => (s.audit.bind (·.run s.cancelled st)).map fun e => { s with audit := some e }
    | s, .cancel => some { s with cancelled := true }

/-- A state of the relay. -/
abbrev AuditState := ServiceState edge AuditTables HandlerTask

/-- A step of the relay. -/
abbrev AuditTransition := ServiceStep edge AuditTables HandlerTask Int AuditStep

namespace AuditState

open Handler

variable {cfg : EdgeConfig} {h : List AuditTransition} {s : AuditState}

/-- What the emitter has and has not yet seen through. -/
def pending (s : AuditState) : List AuditEvent := s.shared.audit.elim [] Emitter.pending

/-- The queue has room before the step. -/
def hasRoom (t : AuditTransition) : Bool := t.pre.shared.audit.elim false (·.queue.hasRoom)

/-- The event that a step emits. -/
def emitted (cfg : EdgeConfig) (t : AuditTransition) : Option AuditEvent :=
  (Service.performedIn t).bind fun p => emits cfg.toRelayConfig p.1 p.2.op

/-- The event whose call to the controller returns in a step. -/
def called (t : AuditTransition) : Option AuditEvent :=
  match t.ev with
  | .env (.run st) => t.pre.shared.audit.bind (·.calledBy st)
  | _ => none

/-- A call to the controller fails in the step. -/
def fails (t : AuditTransition) : Bool :=
  match t.ev with
  | .env (.run (.called err)) => err.isSome
  | _ => false

/-- **The events that have been recorded**: their calls have returned no error. -/
def recorded (h : List AuditTransition) : List AuditEvent :=
  (h.filter fun t => !fails t).filterMap called

/-- **The events that were lost** with a failed call. -/
def lost (h : List AuditTransition) : List AuditEvent := (h.filter fails).filterMap called

/-- **The trail**: what the controller has been called with, then what it will be. -/
def trail (h : List AuditTransition) (s : AuditState) : List AuditEvent :=
  h.filterMap called ++ pending s

/-- **The events that were dropped**, because the queue was full. -/
def dropped (cfg : EdgeConfig) (h : List AuditTransition) : List AuditEvent :=
  (h.filter fun t => !hasRoom t).filterMap (emitted cfg)

/-- **The decisions of the policy engine**, each as the event that it asks for. -/
def decisions (cfg : EdgeConfig) (h : List AuditTransition) : List AuditEvent :=
  ((Service.journal h).map Prod.snd).filterMap (decided cfg.toRelayConfig)

/-- The decision that a handler has made and is about to emit. -/
def inHand (cfg : EdgeConfig) (g : Goroutine edge HandlerTask) : Option AuditEvent :=
  match g.rest with
  | .ret _ => none
  | .call o _ => emits cfg.toRelayConfig 0 o

/-! ### The queue -/

/-- **What an emission does.** -/
theorem act_eq {ts : Int} {tables tables' : AuditTables} {ev : EdgeEvent}
    (h : (auditService cfg).act ts tables ev = some tables') :
    tables'.audit = (emits cfg.toRelayConfig ts ev.op).elim tables.audit
      fun x => tables.audit.map (·.emit x) := by
  obtain ⟨op, r⟩ := ev
  cases op <;> cases h <;> rfl

/-- A step that performs an operation. -/
theorem pending_perform {ts : Int} {tables tables' : AuditTables} {ev : EdgeEvent}
    (h : (auditService cfg).act ts tables ev = some tables') :
    tables'.audit.elim [] Emitter.pending = tables.audit.elim [] Emitter.pending
      ++ (if tables.audit.elim false (·.queue.hasRoom) then emits cfg.toRelayConfig ts ev.op
        else none).toList := by
  rw [act_eq h]
  cases emits cfg.toRelayConfig ts ev.op with
  | none =>
    rw [ite_self]
    exact (List.append_nil _).symm
  | some x =>
    cases tables.audit with
    | none => rfl
    | some e =>
      show (e.emit x).pending
        = e.pending ++ (if e.queue.hasRoom = true then some x else none).toList
      by_cases hroom : e.queue.hasRoom = true
      · rw [if_pos hroom]
        exact Emitter.pending_emit hroom
      · rw [if_neg hroom, Emitter.emit_of_not_hasRoom (Bool.eq_false_iff.mpr hroom)]
        exact (List.append_nil _).symm

theorem emitted_of_performs {t : AuditTransition} {i : ℕ} {c : Int} {v : EdgeEvent}
    (hperf : Service.Performs t i c v) : emitted cfg t = emits cfg.toRelayConfig c v.op := by
  unfold emitted
  rw [Service.performedIn_of_performs hperf, Option.bind_some]

/-- **One step**: the emitter takes at one end and adds at the other. -/
theorem pending_step (t : AuditTransition)
    (ht : (auditService cfg).machine.step t.pre t.ev = some t.post) :
    (called t).toList ++ pending t.post
      = pending t.pre ++ (if hasRoom t then emitted cfg t else none).toList := by
  obtain ⟨s, e, s'⟩ := t
  have ht : (auditService cfg).machine.step s e = some s' := ht
  cases Service.steps_of_step ht with
  | spawn r =>
    rw [show emitted cfg (⟨s, .spawn r, _⟩ : AuditTransition) = none from rfl, ite_self]
    exact (List.append_nil _).symm
  | @perform i ω c r done o k shared hi hact =>
    rw [emitted_of_performs (c := c) (v := ⟨o, ω o⟩) ⟨ω, _, k, rfl, hi, rfl, rfl⟩]
    exact pending_perform hact
  | @env e shared he =>
    rw [show emitted cfg (⟨s, .env e, _⟩ : AuditTransition) = none from rfl, ite_self]
    refine Eq.trans ?_ (List.append_nil _).symm
    cases e with
    | run st =>
      obtain ⟨e', hrun, rfl⟩ := Option.map_eq_some_iff.mp he
      obtain ⟨e, haudit, hrun⟩ := Option.bind_eq_some_iff.mp hrun
      unfold called pending
      dsimp only
      rw [haudit]
      exact Emitter.pending_run hrun
    | cancel =>
      cases he
      rfl

/-- **The trail is what has been emitted with room in the queue**, in the order of the
emissions. -/
theorem trail_eq (hx : (auditService cfg).machine.Exec h s) :
    trail h s = (h.filter hasRoom).filterMap (emitted cfg) := by
  rw [List.filterMap_filter]
  exact hx.conveys rfl pending_step

/-! ### Where the decisions are -/

/-- What a step emits, without the time. -/
theorem map_untimed_emitted (h : List AuditTransition) :
    (h.filterMap (emitted cfg)).map AuditEvent.untimed
      = ((Service.journal h).map Prod.snd).filterMap (audited cfg.toRelayConfig) := by
  have hop : ∀ (ts : Int) (op : EdgeOp), (emits cfg.toRelayConfig ts op).map AuditEvent.untimed
      = emits cfg.toRelayConfig 0 op := by
    intro ts op
    cases op <;> rfl
  unfold Service.journal
  rw [List.map_filterMap, List.filterMap_map, List.filterMap_filterMap]
  refine congrArg (List.filterMap · h) (funext fun t => ?_)
  unfold emitted
  cases Service.performedIn t with
  | none => rfl
  | some p => exact hop p.1 p.2.op

/-- Everything that has been emitted is on the trail or was dropped. -/
theorem emitted_perm (hx : (auditService cfg).machine.Exec h s) :
    (trail h s ++ dropped cfg h).Perm (h.filterMap (emitted cfg)) := by
  rw [trail_eq hx, dropped, ← List.filterMap_append]
  exact (List.filter_append_perm hasRoom h).filterMap _

/-- A handler has emitted its decisions, up to the one in its hands. -/
theorem done_eq (hx : (auditService cfg).machine.Exec h s) {g : Goroutine edge HandlerTask}
    (hg : g ∈ s.procs) : g.done.filterMap (decided cfg.toRelayConfig)
      = g.done.filterMap (audited cfg.toRelayConfig) ++ (inHand cfg g).toList := by
  obtain ⟨i, hi⟩ := List.mem_iff_getElem?.mp hg
  have hcode : Accounted cfg.toRelayConfig ((auditService cfg).code g.request) := by
    cases g.request with
    | consumer caller => exact handleConsumerStream_accounted
    | forwarded => exact handleForwardedStream_accounted
  have hleft := Service.left_of_exec hx hi
  obtain ⟨request, done, rest⟩ := g
  cases rest with
  | ret u =>
    have hdone := Service.all_of_returned hx hi rfl hcode.paths
    exact hdone.trans (List.append_nil _).symm
  | call o k =>
    have hsite : (done ++ []).filterMap (decided cfg.toRelayConfig)
        = (done ++ []).filterMap (audited cfg.toRelayConfig)
          ++ (emits cfg.toRelayConfig 0 o).toList := (hleft.sites hcode.sites).1
    rwa [List.append_nil] at hsite

/-- The trail is what has been recorded, what was lost, and what the emitter has. -/
theorem trail_perm (h : List AuditTransition) (s : AuditState) :
    (recorded h ++ lost h ++ pending s).Perm (trail h s) := by
  refine List.Perm.append_right _ (List.perm_append_comm.trans ?_)
  rw [recorded, lost, ← List.filterMap_append]
  exact (List.filter_append_perm fails h).filterMap _

/-- **Every decision is in exactly one place**: recorded with the controller, lost with
a failed call, with the emitter, dropped, or in the hands of a handler. What has been
recorded is in the order of the emissions, as are the calls to the controller, and the
emitter holds a bounded number of events. -/
theorem decided_perm (hx : (auditService cfg).machine.Exec h s) :
    (decisions cfg h).Perm
        ((recorded h ++ lost h ++ pending s ++ dropped cfg h).map AuditEvent.untimed
          ++ s.procs.flatMap fun g => (inHand cfg g).toList)
      ∧ (recorded h).Sublist (h.filterMap (emitted cfg))
      ∧ (trail h s).Sublist (h.filterMap (emitted cfg))
      ∧ (pending s).length ≤ queueDepth + 1 := by
  have htrail : (trail h s).Sublist (h.filterMap (emitted cfg)) := by
    rw [trail_eq hx]
    exact List.filter_sublist.filterMap _
  refine ⟨?_, ?_, htrail, ?_⟩
  · have haudited : ((recorded h ++ lost h ++ pending s ++ dropped cfg h).map
        AuditEvent.untimed).Perm
        (s.procs.flatMap fun g => g.done.filterMap (audited cfg.toRelayConfig)) := by
      refine ((((trail_perm h s).append_right _).trans (emitted_perm hx)).map _).trans ?_
      rw [map_untimed_emitted]
      exact ((Service.journal_perm hx).filterMap _).trans (by rw [List.filterMap_flatMap])
    refine ((Service.journal_perm hx).filterMap _).trans ?_
    rw [List.filterMap_flatMap, List.flatMap_congr fun g hg => done_eq hx hg]
    exact (List.flatMap_append_perm ..).symm.trans (haudited.symm.append_right _)
  · exact ((List.filter_sublist.filterMap _).trans (List.sublist_append_left _ _)).trans htrail
  · unfold pending
    cases s.shared.audit with
    | none => exact Nat.zero_le _
    | some e => exact e.length_pending_le

/-- The environment of a handler on the relay of both agents, in which everyone
accepts. -/
def atPayments : ∀ o : EdgeOp, o.Ans :=
  succeeding acceptedBy (fun _ _ _ => ⟨.allow, [], .allowed, .splice⟩)
    [⟨agentP.val, edgeR1.relayID, go "r1.example:7000"⟩] connP

/-- `agentC` opens a stream, and its handler performs `n` operations. -/
def opensPayments (n : ℕ) : List (ServiceEvent edge HandlerTask Int AuditStep) :=
  .spawn (.consumer connC) :: List.replicate n (.perform 0 atPayments 5)

/-- The first decision on a stream is lost with a failed call, and the second is in the
queue. -/
theorem decided_perm_lost : ∃ (h : List AuditTransition) (s : AuditState),
    (auditService edgeR1).machine.Exec h s ∧ lost h ≠ [] ∧ (pending s).length = 1
      ∧ (decisions edgeR1 h).Perm
        ((recorded h ++ lost h ++ pending s ++ dropped edgeR1 h).map AuditEvent.untimed
          ++ s.procs.flatMap fun g => (inHand edgeR1 g).toList) := by
  obtain ⟨s, s', x, hrun, hcalled, hstep, hpending⟩ : ∃ s s' x,
      (auditService edgeR1).machine.run (opensPayments 3 ++ [.env (.run .take)]
        ++ List.replicate 4 (.perform 0 atPayments 6)) (auditService edgeR1).machine.init = some s
      ∧ s.shared.audit.bind (·.calledBy (.called (some (go "unavailable")))) = some x
      ∧ (auditService edgeR1).machine.step s (.env (.run (.called (some (go "unavailable")))))
        = some s' ∧ (pending s').length = 1 := ⟨_, _, _, rfl, rfl, rfl, rfl⟩
  obtain ⟨h, hx, -⟩ := Machine.exec_of_run _ _ hrun
  have hlost : ∀ t : AuditTransition, fails t = true → called t = some x → x ∈ lost (h ++ [t]) :=
    fun t hfails hcalled => List.mem_filterMap.mpr ⟨t, List.mem_filter.mpr
      ⟨List.mem_append_right _ List.mem_cons_self, hfails⟩, hcalled⟩
  exact ⟨_, s', hx.snoc hstep, List.ne_nil_of_mem (hlost _ rfl hcalled), hpending,
    (decided_perm (hx.snoc hstep)).1⟩

/-! ### Streams that reach a provider -/

/-- The event says that `caller` may call `target`. -/
def Permits (x : AuditEvent) (caller target method : GoString) : Prop :=
  x.caller = caller ∧ x.target = target ∧ x.method = method ∧ x.decision = .allow

theorem permits_of_untimed {x : AuditEvent} {caller target method : GoString} {r : Result}
    (hx : x.untimed = auditEvent cfg.toRelayConfig 0 caller target method r)
    (hr : r.decision ≠ .deny) : Permits x caller target method := by
  have hfield : ∀ {α : Type} (f : AuditEvent → α), f x.untimed
      = f (auditEvent cfg.toRelayConfig 0 caller target method r) := fun f => congrArg f hx
  exact ⟨hfield AuditEvent.caller, hfield AuditEvent.target, hfield AuditEvent.method,
    (hfield AuditEvent.decision).trans (if_neg hr)⟩

/-- **The event says what the policy engine has answered the handler `i`** about
`caller` and `target`, and the handler itself has emitted it. -/
def EmittedBy (cfg : EdgeConfig) (h : List AuditTransition) (i : ℕ)
    (caller target method : GoString) (x : AuditEvent) : Prop :=
  ∃ r : Result, (∃ t ∈ h, ∃ ts, Service.Performs t i ts ⟨.evaluate caller target method, r⟩)
    ∧ x.untimed = auditEvent cfg.toRelayConfig 0 caller target method r
    ∧ ∃ t ∈ h, ∃ ts ev, Service.Performs t i ts ev ∧ emits cfg.toRelayConfig ts ev.op = some x

/-- What a handler has emitted is on the trail, or was dropped. -/
theorem mem_of_audited (hx : (auditService cfg).machine.Exec h s) {i : ℕ}
    {g : Goroutine edge HandlerTask} (hi : s.procs[i]? = some g) {x : AuditEvent}
    (hmem : x ∈ g.done.filterMap (audited cfg.toRelayConfig)) :
    ∃ y ∈ trail h s ++ dropped cfg h, y.untimed = x
      ∧ ∃ t ∈ h, ∃ ts ev, Service.Performs t i ts ev
        ∧ emits cfg.toRelayConfig ts ev.op = some y := by
  obtain ⟨ev, hev, hx'⟩ := List.mem_filterMap.mp hmem
  obtain ⟨t, ht, c, hperf, -⟩ := Service.performed hx hi hev
  have hemit : ∃ y, emits cfg.toRelayConfig c ev.op = some y ∧ y.untimed = x := by
    obtain ⟨op, r⟩ := ev
    cases op <;> cases hx'
    exact ⟨_, rfl, rfl⟩
  obtain ⟨y, hy, hyx⟩ := hemit
  have hemitted : emitted cfg t = some y := (emitted_of_performs hperf).trans hy
  exact ⟨y, (emitted_perm hx).mem_iff.mpr (List.mem_filterMap.mpr ⟨t, ht, hemitted⟩), hyx,
    t, ht, c, ev, hperf, hy⟩

/-- **A decision of a handler that is not about to emit one** has been emitted. -/
theorem emitted_of_decided (hx : (auditService cfg).machine.Exec h s) {i : ℕ}
    {g : Goroutine edge HandlerTask} (hi : s.procs[i]? = some g) (hhand : inHand cfg g = none)
    {caller target method : GoString} {r : Result}
    (hmem : ⟨.evaluate caller target method, r⟩ ∈ g.done) (hallow : r.decision ≠ .deny) :
    ∃ x ∈ trail h s ++ dropped cfg h, Permits x caller target method
      ∧ EmittedBy cfg h i caller target method x := by
  have hdone := done_eq hx (List.mem_of_getElem? hi)
  rw [hhand, Option.toList_none, List.append_nil] at hdone
  have haudited : auditEvent cfg.toRelayConfig 0 caller target method r
      ∈ g.done.filterMap (audited cfg.toRelayConfig) :=
    hdone ▸ List.mem_filterMap.mpr ⟨_, hmem, rfl⟩
  obtain ⟨x, hx', huntimed, hown⟩ := mem_of_audited hx hi haudited
  obtain ⟨t, ht, ts, hperf, -⟩ := Service.performed hx hi hmem
  exact ⟨x, hx', permits_of_untimed huntimed hallow, r, ⟨t, ht, ts, hperf⟩, huntimed, hown⟩

/-- **A provider hears of a stream when its handler has emitted both decisions that let
it pass.** -/
theorem told_of_emitted {h₁ h₂ : List AuditTransition} {t : AuditTransition}
    (hx : (auditService cfg).machine.Exec (h₁ ++ t :: h₂) s) {i : ℕ} {ts : Int}
    {caller prov : AgentConn} {m : IncomingStream} {r : Except GoString Unit}
    {g : Goroutine edge HandlerTask} (hi : t.pre.procs[i]? = some g)
    (hreq : g.request = .consumer caller) (hpolicy : cfg.policy = true)
    (htell : Service.Performs t i ts ⟨.writeFrame (.provider prov) (.incomingStream m), r⟩) :
    (∃ x ∈ trail h₁ t.pre ++ dropped cfg h₁, Permits x caller.uri m.targetService m.method
        ∧ EmittedBy cfg h₁ i caller.uri m.targetService m.method x)
      ∧ ∃ y ∈ trail h₁ t.pre ++ dropped cfg h₁, Permits y prov.uri caller.uri m.method
        ∧ EmittedBy cfg h₁ i prov.uri caller.uri m.method y := by
  have hpre := hx.of_append.1
  obtain ⟨ω, g', k, -, hi', hrest, -⟩ := htell
  cases hi.symm.trans hi'
  have hleft := Service.left_of_exec hpre hi
  rw [hrest, hreq] at hleft
  -- the step is not an emission
  have hhand : inHand cfg g = none := by
    unfold inHand
    rw [hrest]
    rfl
  obtain ⟨hsite, htold⟩ :=
    (hleft.sites (handleConsumerStream_contacts.and handleConsumerStream_told)).1
  rw [List.append_nil] at hsite htold
  obtain ⟨o, -, hcontact, hcaller⟩ := hsite rfl
  obtain ⟨callee, hcallee, hallow⟩ := htold rfl prov m rfl hpolicy
  obtain ⟨dec, hdec, hallow'⟩ := hcaller hpolicy
  cases hcontact
  exact ⟨emitted_of_decided hpre hi hhand hdec hallow',
    emitted_of_decided hpre hi hhand hcallee hallow⟩

/-- The provider of `openPayments` is told. -/
theorem told_of_emitted_payments : ∃ (h : List AuditTransition) (t : AuditTransition)
    (s : AuditState), (auditService edgeR1).machine.Exec (h ++ t :: []) s
      ∧ Service.Performs t 0 5 ⟨.writeFrame (.provider connP)
        (.incomingStream (localStream connC openPayments [])), .ok ()⟩
      ∧ ∃ x ∈ trail h t.pre ++ dropped edgeR1 h, Permits x connP.uri connC.uri (go "pay")
        ∧ EmittedBy edgeR1 h 0 connP.uri connC.uri (go "pay") x := by
  obtain ⟨s, s', g, k, hrun, hstep, hg, hreq, hrest⟩ : ∃ s s' g k,
      (auditService edgeR1).machine.run (opensPayments 9) (auditService edgeR1).machine.init
        = some s
      ∧ (auditService edgeR1).machine.step s (.perform 0 atPayments 5) = some s'
      ∧ s.procs[0]? = some g ∧ g.request = .consumer connC
      ∧ g.rest = .call (.writeFrame (.provider connP)
        (.incomingStream (localStream connC openPayments []))) k :=
    ⟨_, _, _, _, rfl, rfl, rfl, rfl, rfl⟩
  obtain ⟨h, hx, -⟩ := Machine.exec_of_run _ _ hrun
  have hperf : Service.Performs (⟨s, .perform 0 atPayments 5, s'⟩ : AuditTransition) 0 5
      ⟨.writeFrame (.provider connP) (.incomingStream (localStream connC openPayments [])),
        .ok ()⟩ := ⟨atPayments, g, k, rfl, hg, hrest, rfl⟩
  exact ⟨h, _, s', hx.snoc hstep, hperf, (told_of_emitted (hx.snoc hstep) hg hreq rfl hperf).2⟩

end AuditState
