import OutRelay.Goroutines
import OutRelay.Handlers
import OutRelay.Ledger
import OutRelay.PlaneWrap

/-!
# What a stream handler leaves behind

`handleConsumerStream` takes as it goes: a stream to the provider, a row of the
pair table, a watchdog for a required promotion, two allocations of the plane. It
has some fifteen ways out, and gives back by deferred calls, each registered
after what it gives back has been taken. A `defer forgetPair` that stood before
the collision check would delete the row of another stream.

Two facts about the procedure carry the result. Whatever it is answered, nothing
that it took is held when it returns (`handleConsumerStream_spec`), and it leaves
the pair table alone unless it has recorded a row (`handleConsumerStream_careful`).

Any number of handlers work on the same tables, among collections, agents that
are forgotten and streams that are resumed (`relayService`). What a handler has
given back is then also gone: an id is not issued again before the counter has
gone round, and a row that comes later is another's (`handler_leavesNothing`).
-/

/-- What a handler has to give back. -/
inductive Resource
  | stream (st : StreamRef)
  | pair (sid : UInt64)
  | enforcement (sid : UInt64)
  | alloc (id : UInt32)
  deriving DecidableEq

namespace Handler

/-- **What the operations of a handler take and give back.** -/
def ledger : Ledger edge Resource where
  acquires
    | ⟨.openAgentStream ac, .ok ()⟩ => some (.stream (.provider ac))
    | ⟨.openPeerStream, .ok ()⟩ => some (.stream .peer)
    | ⟨.recordPair sid _, true⟩ => some (.pair sid)
    | ⟨.enforceRequiredPromotion sid, _⟩ => some (.enforcement sid)
    | ⟨.allocate _, id⟩ => some (.alloc id)
    | _ => none
  releases
    | ⟨.closeStream st, _⟩ => some (.stream st)
    | ⟨.forgetPair sid, _⟩ => some (.pair sid)
    | ⟨.cancelEnforcement sid, _⟩ => some (.enforcement sid)
    | ⟨.forget id, _⟩ => some (.alloc id)
    | _ => none

/-- The operation that gives a resource back. -/
def release : Resource → EdgeEvent
  | .stream st => ⟨.closeStream st, ()⟩
  | .pair sid => ⟨.forgetPair sid, ()⟩
  | .enforcement sid => ⟨.cancelEnforcement sid, ()⟩
  | .alloc id => ⟨.forget id, ()⟩

theorem eq_release {ev : EdgeEvent} {r : Resource} (hrel : ledger.releases ev = some r) :
    ev = release r := by
  obtain ⟨o, ans⟩ := ev
  cases o with
  | closeStream | forgetPair | cancelEnforcement | forget =>
    cases hrel
    rfl
  | _ => cases hrel

/-- The operations that take nothing, whatever their answer. -/
def takesNothing : EdgeOp → Bool
  | .openAgentStream _ | .openPeerStream | .recordPair _ _ | .enforceRequiredPromotion _
  | .allocate _ => false
  | _ => true

theorem acquires_of_takesNothing {ev : EdgeEvent} (ho : takesNothing ev.op = true) :
    ledger.acquires ev = none := by
  obtain ⟨o, ans⟩ := ev
  cases o with
  | openAgentStream | openPeerStream | recordPair | enforceRequiredPromotion | allocate => cases ho
  | _ => rfl

theorem balanced_of_within {α : Type} {p : Handler α}
    (hp : p.Within (fun o => takesNothing o = true)) : ledger.Balanced p :=
  Ledger.balanced_of_only (Prog.Only.imp (Prog.Sites.only hp) fun _ => acquires_of_takesNothing)

theorem balanced_perform {o : EdgeOp} (ho : takesNothing o = true) :
    ledger.Balanced (perform o) :=
  balanced_of_within (Prog.within_perform ho)

theorem releases_closeStream {st : StreamRef} :
    ledger.Releases (.stream st) (perform (.closeStream st)) :=
  Ledger.releases_perform fun _ => ⟨rfl, rfl⟩

theorem releases_forgetPair {sid : UInt64} :
    ledger.Releases (.pair sid) (perform (.forgetPair sid)) :=
  Ledger.releases_perform fun _ => ⟨rfl, rfl⟩

theorem releases_cancelEnforcement {sid : UInt64} :
    ledger.Releases (.enforcement sid) (perform (.cancelEnforcement sid)) :=
  Ledger.releases_perform fun _ => ⟨rfl, rfl⟩

theorem releases_forget {id : UInt32} : ledger.Releases (.alloc id) (perform (.forget id)) :=
  Ledger.releases_perform fun _ => ⟨rfl, rfl⟩

theorem rejectConsumer_balanced {caller : Option AgentConn} {st : StreamRef} {streamID : UInt64}
    {code : UInt32} {reason : GoString} :
    ledger.Balanced (rejectConsumer caller st streamID code reason) :=
  balanced_of_within (rejectConsumer_within (fun _ => rfl) (fun _ => rfl))

theorem resolve_balanced {cfg : EdgeConfig} {uri name : GoString} :
    ledger.Balanced (resolve cfg uri name) :=
  balanced_of_within (resolve_within (fun _ _ _ => rfl) (fun _ => rfl))

/-- What a call that opens the stream `st` leaves: the stream, where it succeeds. -/
def opens (st : StreamRef) {ε : Type} : Except ε Unit → Set Resource
  | .ok () => insert (.stream st) ∅
  | .error _ => ∅

/-- A stream that is closed after an error, and the error returned. -/
theorem spec_close_error {ε : Type} {st : StreamRef} {err : ε} :
    ledger.Spec (insert (.stream st) ∅) (do
      perform (.closeStream st)
      pure (.error err) : Handler (Except ε Unit)) (opens st) :=
  Ledger.Spec.bind (releases_closeStream ∅) fun _ => Ledger.spec_pure subset_rfl

theorem openIncoming_spec {ac : AgentConn} {service method uri : GoString} {streamID : UInt64} :
    ledger.Spec ∅ (openIncoming ac service method uri streamID) (opens (.provider ac)) := by
  refine Ledger.Spec.call fun ans => ?_
  cases ans with
  | error err => exact Ledger.spec_pure (Ledger.after_subset rfl)
  | ok u =>
    refine Ledger.Spec.imp ?_ (Ledger.after_acquire rfl) fun _ => subset_rfl
    refine Ledger.Spec.bind ((balanced_perform rfl).spec _) fun resumeRelays => ?_
    refine Ledger.Spec.bind ((balanced_perform rfl).spec _) fun ans => ?_
    cases ans with
    | error err => exact spec_close_error
    | ok u => exact Ledger.spec_pure subset_rfl

theorem forwardStream_spec {target method uri : GoString} :
    ledger.Spec ∅ (forwardStream target method uri) (opens .peer) := by
  refine Ledger.Spec.call fun ans => ?_
  cases ans with
  | error err => exact Ledger.spec_pure (Ledger.after_subset rfl)
  | ok u =>
    refine Ledger.Spec.imp ?_ (Ledger.after_acquire rfl) fun _ => subset_rfl
    refine Ledger.Spec.bind ((balanced_perform rfl).spec _) fun ans => ?_
    cases ans with
    | error err => exact spec_close_error
    | ok u =>
      refine Ledger.Spec.bind ((balanced_perform rfl).spec _) fun ans => ?_
      match ans with
      | .ok .streamAccept => exact Ledger.spec_pure subset_rfl
      | .error err => exact spec_close_error
      | .ok (.streamReject code reason) => exact spec_close_error
      | .ok (.openStream _) | .ok (.forwardStream _) | .ok (.streamResume _)
      | .ok (.migrateToRelay _) | .ok (.other _) => exact spec_close_error

theorem forwardToPeer_balanced {caller : AgentConn} {o : OpenStream} {remote : Remote} :
    ledger.Balanced (forwardToPeer caller o remote) := by
  refine Ledger.Balanced.bind (balanced_perform rfl) fun ans => ?_
  cases ans with
  | error err => exact rejectConsumer_balanced
  | ok u =>
    refine Ledger.Spec.bind forwardStream_spec fun ans => ?_
    cases ans with
    | error err =>
      exact Ledger.Balanced.bind (balanced_perform rfl) fun _ => rejectConsumer_balanced
    | ok u =>
      have hsplice : ledger.Balanced (do
          let _ ← perform (.splice .consumer .peer) : Handler Unit) :=
        Ledger.Balanced.bind (balanced_perform rfl) fun _ => Ledger.balanced_pure
      exact hsplice.release releases_closeStream

/-- **The forwarding branch gives both allocations back**, whichever write of a
grant fails. -/
theorem grantForward_balanced {caller prov : AgentConn} {o : OpenStream} :
    ledger.Balanced (grantForward caller prov o) := by
  refine Ledger.Balanced.bind (balanced_perform rfl) fun provAC => ?_
  cases provAC with
  | none => exact rejectConsumer_balanced
  | some provAC =>
    refine Ledger.Spec.acquire (fun _ => rfl) fun consumerAlloc => ?_
    refine Ledger.Spec.acquire (fun _ => rfl) fun providerAlloc => ?_
    refine Ledger.Spec.release (Ledger.Balanced.release ?_ releases_forget) releases_forget
    refine Ledger.Balanced.bind (balanced_perform rfl) fun fwdEndpoint => ?_
    refine Ledger.Balanced.bind (balanced_perform rfl) fun resumeRelays => ?_
    refine Ledger.Balanced.bind (balanced_perform rfl) fun ans => ?_
    cases ans with
    | error err => exact Ledger.balanced_pure
    | ok u =>
      refine Ledger.Balanced.bind (balanced_perform rfl) fun ans => ?_
      cases ans with
      | error err => exact Ledger.balanced_pure
      | ok u => exact balanced_perform rfl

theorem spliceStreams_balanced {caller prov : AgentConn} {o : OpenStream} :
    ledger.Balanced (spliceStreams caller prov o) := by
  refine Ledger.Balanced.bind (balanced_perform rfl) fun provAC => ?_
  refine Ledger.Balanced.bind (balanced_perform rfl) fun resumeRelays => ?_
  refine Ledger.Balanced.bind (balanced_perform rfl) fun _ => ?_
  have hnotify : ledger.Balanced (notify provAC (.streamReady o.streamID resumeRelays)) := by
    cases provAC with
    | none => exact Ledger.balanced_pure
    | some ac => exact Ledger.Balanced.bind (balanced_perform rfl) fun _ => Ledger.balanced_pure
  refine Ledger.Balanced.bind hnotify fun _ => ?_
  exact Ledger.Balanced.bind (balanced_perform rfl) fun _ => Ledger.balanced_pure

theorem awaitAccept_balanced {cfg : EdgeConfig} {caller prov : AgentConn} {o : OpenStream}
    {relayMode : RelayMode} : ledger.Balanced (awaitAccept cfg caller prov o relayMode) := by
  refine Ledger.Balanced.bind (balanced_perform rfl) fun ans => ?_
  match ans with
  | .error err => exact Ledger.balanced_pure
  | .ok .streamAccept =>
    dsimp only
    split_ifs
    · exact grantForward_balanced
    · exact spliceStreams_balanced
  | .ok (.streamReject _ _) => exact rejectConsumer_balanced
  | .ok (.openStream _) | .ok (.forwardStream _) | .ok (.streamResume _) | .ok (.migrateToRelay _)
  | .ok (.other _) => exact Ledger.balanced_pure

/-- **From `OpenIncoming` on**, the provider's stream, the row and the watchdog are
given back. -/
theorem dispatchStream_balanced {cfg : EdgeConfig} {caller prov : AgentConn} {o : OpenStream}
    {p2pMode : P2PMode} {relayMode : RelayMode} :
    ledger.Balanced (dispatchStream cfg caller prov o p2pMode relayMode) := by
  refine Ledger.Spec.bind openIncoming_spec fun ans => ?_
  cases ans with
  | error err => exact rejectConsumer_balanced
  | ok u =>
    refine Ledger.Balanced.release ?_ releases_closeStream
    refine Ledger.Spec.call fun ans => ?_
    cases ans with
    | false =>
      rw [if_neg Bool.false_ne_true]
      refine (rejectConsumer_balanced.spec ∅).imp ?_ fun _ => subset_rfl
      exact Ledger.after_subset rfl
    | true =>
      rw [if_pos rfl]
      refine Ledger.Spec.imp ?_ (Ledger.after_acquire rfl) fun _ => subset_rfl
      refine Ledger.Balanced.release ?_ releases_forgetPair
      split_ifs
      · -- the watchdog is armed inside the block that cancels it
        have harm : ledger.Spec ∅ (do
            perform (.enforceRequiredPromotion o.streamID)
            awaitAccept cfg caller prov o relayMode)
            (fun _ => insert (.enforcement o.streamID) ∅) :=
          Ledger.Spec.acquire (fun _ => rfl) fun _ => awaitAccept_balanced.spec _
        exact Ledger.Spec.release harm releases_cancelEnforcement
      · exact awaitAccept_balanced

theorem routeStream_balanced {cfg : EdgeConfig} {caller : AgentConn} {o : OpenStream}
    {p2pMode : P2PMode} {relayMode : RelayMode} :
    ledger.Balanced (routeStream cfg caller o p2pMode relayMode) := by
  refine Ledger.Balanced.bind resolve_balanced fun ans => ?_
  match ans with
  | .error (.providerRemote remote) =>
    dsimp only
    split_ifs
    · exact rejectConsumer_balanced
    · exact forwardToPeer_balanced
  | .error .noTenant | .error (.rpcFailed _) | .error .serviceNotFound =>
    exact rejectConsumer_balanced
  | .ok prov =>
    dsimp only
    split_ifs
    · refine Ledger.Balanced.bind (balanced_perform rfl) fun callee => ?_
      refine Ledger.Balanced.bind (balanced_perform rfl) fun _ => ?_
      split_ifs
      · exact rejectConsumer_balanced
      · exact dispatchStream_balanced
    · exact dispatchStream_balanced

theorem handleOpenStream_balanced {cfg : EdgeConfig} {caller : AgentConn} {o : OpenStream} :
    ledger.Balanced (handleOpenStream cfg caller o) := by
  unfold handleOpenStream
  split_ifs
  · refine Ledger.Balanced.bind (balanced_perform rfl) fun dec => ?_
    refine Ledger.Balanced.bind (balanced_perform rfl) fun _ => ?_
    split_ifs
    · exact rejectConsumer_balanced
    · exact routeStream_balanced
  · exact routeStream_balanced

/-- **The handler gives back the consumer's stream, and all that it takes.** -/
theorem handleConsumerStream_spec {cfg : EdgeConfig} {caller : AgentConn} :
    ledger.Spec (insert (.stream .consumer) ∅) (handleConsumerStream cfg caller) (fun _ => ∅) := by
  refine Ledger.Balanced.release ?_ releases_closeStream
  refine Ledger.Balanced.bind (balanced_perform rfl) fun ans => ?_
  match ans with
  | .error err => exact Ledger.balanced_pure
  | .ok (.streamResume _) => exact balanced_perform rfl
  | .ok (.migrateToRelay _) => exact balanced_perform rfl
  | .ok (.openStream (some o)) => exact handleOpenStream_balanced
  | .ok (.openStream none) | .ok (.forwardStream _) | .ok .streamAccept
  | .ok (.streamReject _ _) | .ok (.other _) => exact Ledger.balanced_pure

/-! ## The pair table is left alone until the row is recorded -/

/-- The operation changes the pair table. A `recordPair` that is refused does not. -/
def changesPairs : EdgeEvent → Bool
  | ⟨.recordPair _ _, true⟩ => true
  | ⟨.forgetPair _, _⟩ => true
  | _ => false

/-- The operations that leave the pair table alone, whatever their answer. -/
def sparesPairs : EdgeOp → Bool
  | .recordPair _ _ | .forgetPair _ => false
  | _ => true

/-- **The pair table is changed only if a row has been recorded.** -/
def Careful (tr : List EdgeEvent) : Prop :=
  (∀ sid p, (⟨.recordPair sid p, true⟩ : EdgeEvent) ∉ tr) → ∀ ev ∈ tr, changesPairs ev = false

variable {α β : Type} {p : Handler α} {k : α → Handler β}

theorem only_of_within (hp : p.Within (fun o => sparesPairs o = true)) :
    p.Only (fun ev => changesPairs ev = false) := by
  refine Prog.Only.imp (Prog.Sites.only hp) fun ev hev => ?_
  obtain ⟨o, ans⟩ := ev
  cases o with
  | recordPair | forgetPair => cases hev
  | _ => rfl

theorem only_sparesPairs {o : EdgeOp} (ho : sparesPairs o = true) :
    (perform o).Only (fun ev => changesPairs ev = false) :=
  only_of_within (Prog.within_perform ho)

theorem careful_of_only (hp : p.Only (fun ev => changesPairs ev = false)) :
    p.All (fun tr _ => Careful tr) :=
  Prog.All.imp hp fun _ _ htr _ => htr

/-- Operations that leave the table alone come before. -/
theorem careful_bind (hp : p.Only (fun ev => changesPairs ev = false))
    (hk : ∀ a, (k a).All (fun tr _ => Careful tr)) : (p >>= k).All (fun tr _ => Careful tr) := by
  rw [Prog.all_bind]
  refine Prog.All.imp hp fun tr a htr => Prog.All.imp (hk a) fun tr' _ htr' hnone => ?_
  rw [List.forall_mem_append]
  exact ⟨htr, htr' fun sid q hq => hnone sid q (List.mem_append_right _ hq)⟩

/-- Operations that leave the table alone are deferred. -/
theorem careful_defer {d body : Handler Unit} (hbody : body.All (fun tr _ => Careful tr))
    (hd : d.Only (fun ev => changesPairs ev = false)) :
    (defer d body).All (fun tr _ => Careful tr) := by
  unfold defer
  rw [Prog.all_bind]
  refine Prog.All.imp hbody fun tr _ htr => Prog.All.imp hd fun tr' _ htr' hnone => ?_
  rw [List.forall_mem_append]
  exact ⟨htr fun sid q hq => hnone sid q (List.mem_append_left _ hq), htr'⟩

theorem rejectConsumer_spares {caller : Option AgentConn} {st : StreamRef} {streamID : UInt64}
    {code : UInt32} {reason : GoString} :
    (rejectConsumer caller st streamID code reason).Only (fun ev => changesPairs ev = false) :=
  only_of_within (rejectConsumer_within (fun _ => rfl) (fun _ => rfl))

theorem forwardToPeer_spares {caller : AgentConn} {o : OpenStream} {remote : Remote} :
    (forwardToPeer caller o remote).Only (fun ev => changesPairs ev = false) := by
  refine Prog.Only.bind (only_sparesPairs rfl) fun ans => ?_
  cases ans with
  | error err => exact rejectConsumer_spares
  | ok u =>
    refine Prog.Only.bind (only_of_within (forwardStream_within rfl (fun _ => rfl) rfl rfl))
      fun ans => ?_
    cases ans with
    | error err => exact Prog.Only.bind (only_sparesPairs rfl) fun _ => rejectConsumer_spares
    | ok u =>
      refine Prog.Only.bind ?_ fun _ => only_sparesPairs rfl
      exact Prog.Only.bind (only_sparesPairs rfl) fun _ => Prog.only_pure

/-- **The row is recorded before the call that deletes it is deferred.** -/
theorem dispatchStream_careful {cfg : EdgeConfig} {caller prov : AgentConn} {o : OpenStream}
    {p2pMode : P2PMode} {relayMode : RelayMode} :
    (dispatchStream cfg caller prov o p2pMode relayMode).All (fun tr _ => Careful tr) := by
  refine careful_bind (only_of_within (openIncoming_within rfl rfl (fun _ => rfl) rfl))
    fun ans => ?_
  cases ans with
  | error err => exact careful_of_only rejectConsumer_spares
  | ok u =>
    refine careful_defer ?_ (only_sparesPairs rfl)
    refine Prog.all_bind.mpr (Prog.all_perform.mpr fun ans => ?_)
    cases ans with
    | true => exact Prog.all_iff.mpr fun tr _ _ hnone => absurd List.mem_cons_self (hnone _ _)
    | false =>
      rw [if_neg Bool.false_ne_true]
      refine Prog.All.imp rejectConsumer_spares fun tr _ htr _ => ?_
      exact List.forall_mem_cons.mpr ⟨rfl, htr⟩

theorem routeStream_careful {cfg : EdgeConfig} {caller : AgentConn} {o : OpenStream}
    {p2pMode : P2PMode} {relayMode : RelayMode} :
    (routeStream cfg caller o p2pMode relayMode).All (fun tr _ => Careful tr) := by
  refine careful_bind (only_of_within (resolve_within (fun _ _ _ => rfl) (fun _ => rfl)))
    fun ans => ?_
  match ans with
  | .error (.providerRemote remote) =>
    dsimp only
    split_ifs
    · exact careful_of_only rejectConsumer_spares
    · exact careful_of_only forwardToPeer_spares
  | .error .noTenant | .error (.rpcFailed _) | .error .serviceNotFound =>
    exact careful_of_only rejectConsumer_spares
  | .ok prov =>
    dsimp only
    split_ifs
    · refine careful_bind (only_sparesPairs rfl) fun callee => ?_
      refine careful_bind (only_sparesPairs rfl) fun _ => ?_
      split_ifs
      · exact careful_of_only rejectConsumer_spares
      · exact dispatchStream_careful
    · exact dispatchStream_careful

theorem handleConsumerStream_careful {cfg : EdgeConfig} {caller : AgentConn} :
    (handleConsumerStream cfg caller).All (fun tr _ => Careful tr) := by
  refine careful_defer (careful_bind (only_sparesPairs rfl) fun ans => ?_) (only_sparesPairs rfl)
  match ans with
  | .ok (.openStream (some o)) =>
    dsimp only
    unfold handleOpenStream
    split_ifs
    · refine careful_bind (only_sparesPairs rfl) fun dec => ?_
      refine careful_bind (only_sparesPairs rfl) fun _ => ?_
      split_ifs
      · exact careful_of_only rejectConsumer_spares
      · exact routeStream_careful
    · exact routeStream_careful
  | .error err => exact careful_of_only Prog.only_pure
  | .ok (.streamResume _) => exact careful_of_only (only_sparesPairs rfl)
  | .ok (.migrateToRelay _) => exact careful_of_only (only_sparesPairs rfl)
  | .ok (.openStream none) | .ok (.forwardStream _) | .ok .streamAccept
  | .ok (.streamReject _ _) | .ok (.other _) => exact careful_of_only Prog.only_pure

end Handler

/-! ## Handlers at work -/

/-- The tables that the handlers of a relay share: the forwarding plane, with the
calls of `Allocate` that are under way, and the pair table. -/
structure RelayTables where
  allocs : WrapState
  pairs : PairTable

/-- What happens to the tables besides: a step of the plane – a datagram, a
collection, an agent that is forgotten, a call of `Allocate` – or a write of a
goroutine that splices resumed streams. -/
inductive TableEvent
  | plane (e : WrapEvent)
  | replacePair (sid : UInt64) (p : StreamPair)
  | forgetPair (sid : UInt64)

namespace RelayTables

/-- **What an operation of a handler does to the tables**, with its answer. A call
of `Allocate` returns after its critical section; `c` says which call that has
drawn its id it is, and the time it read. The resume of a stream is not followed
here. -/
def act (c : ℕ × Time) (s : RelayTables) : EdgeEvent → Option RelayTables
  | ⟨.recordPair sid p, ok⟩ =>
    if (recordPair s.pairs sid p).fst = ok then
      some { s with pairs := (recordPair s.pairs sid p).snd }
    else none
  | ⟨.forgetPair sid, _⟩ => some { s with pairs := forgetPair s.pairs sid }
  | ⟨.allocate uri, id⟩ =>
    match s.allocs.calls[c.fst]? with
    | none => none
    | some call =>
      if call.uri = uri ∧ call.id = id then
        (s.allocs.step (.insert c.fst c.snd)).map fun allocs => { s with allocs := allocs }
      else none
  | ⟨.forget id, _⟩ =>
    some { s with allocs := { s.allocs with plane := s.allocs.plane.forget id } }
  | ⟨.resumeHalf _ _, _⟩ => none
  | _ => some s

def env (s : RelayTables) : TableEvent → Option RelayTables
  | .plane e => (s.allocs.step e).map fun allocs => { s with allocs := allocs }
  | .replacePair sid p => some { s with pairs := replacePair s.pairs sid p }
  | .forgetPair sid => some { s with pairs := forgetPair s.pairs sid }

end RelayTables

/-- **The handlers of a relay**: any number of them, each at its own point of
`handleConsumerStream`. -/
def relayService (cfg : EdgeConfig) (idleTTL pendingTTL start : Time) :
    Service edge RelayTables AgentConn (ℕ × Time) TableEvent where
  init := ⟨(wrapMachine idleTTL pendingTTL start).init, ∅⟩
  code := Handler.handleConsumerStream cfg
  act := RelayTables.act
  env := RelayTables.env

/-- A pair that is refused leaves the table as it is. -/
theorem recordPair_snd_of_refused {m : PairTable} {sid : UInt64} {p : StreamPair}
    (h : (recordPair m sid p).fst = false) : (recordPair m sid p).snd = m := by
  unfold recordPair at h ⊢
  split_ifs at h ⊢
  split at h
  · split_ifs at h ⊢
    rfl
  · cases h

/-- The operations that act on the tables. -/
def EdgeOp.actsOnTables : EdgeOp → Bool
  | .recordPair _ _ | .forgetPair _ | .allocate _ | .forget _ => true
  | _ => false

namespace RelayTables

variable {c : ℕ × Time} {s s' : RelayTables} {ev : EdgeEvent}

/-- What an operation does, as a relation. -/
inductive Acts (c : ℕ × Time) (s : RelayTables) : EdgeEvent → RelayTables → Prop
  | record (sid : UInt64) (p : StreamPair) :
      Acts c s ⟨.recordPair sid p, true⟩ { s with pairs := (recordPair s.pairs sid p).snd }
  | refuse (sid : UInt64) (p : StreamPair) : Acts c s ⟨.recordPair sid p, false⟩ s
  | forgetPair (sid : UInt64) :
      Acts c s ⟨.forgetPair sid, ()⟩ { s with pairs := forgetPair s.pairs sid }
  | allocate (uri : GoString) (call : AllocCall) (hcall : s.allocs.calls[c.fst]? = some call)
      (hnew : call.inserted = false) :
      Acts c s ⟨.allocate uri, call.id⟩ { s with
        allocs := { s.allocs with
          plane := s.allocs.plane.insertEntry call.id call.uri c.snd
          calls := s.allocs.calls.set c.fst { call with inserted := true }
          row := s.allocs.row.set call.id c.fst } }
  | forget (id : UInt32) : Acts c s ⟨.forget id, ()⟩
      { s with allocs := { s.allocs with plane := s.allocs.plane.forget id } }
  | idle (ev : EdgeEvent) (hev : ev.op.actsOnTables = false) : Acts c s ev s

theorem acts_of_act (hact : s.act c ev = some s') : Acts c s ev s' := by
  obtain ⟨o, ans⟩ := ev
  cases o with
  | recordPair sid p =>
    simp only [act] at hact
    split_ifs at hact with hans
    cases hact
    cases ans with
    | true => exact .record sid p
    | false =>
      rw [recordPair_snd_of_refused hans]
      exact .refuse sid p
  | forgetPair sid =>
    cases hact
    exact .forgetPair sid
  | allocate uri =>
    simp only [act] at hact
    split at hact
    · cases hact
    case h_2 call hcall =>
      split_ifs at hact with hid
      obtain ⟨rfl, rfl⟩ := hid
      obtain ⟨allocs, hstep, rfl⟩ := Option.map_eq_some_iff.mp hact
      simp only [WrapState.step, hcall] at hstep
      split_ifs at hstep with hnew
      cases hstep
      exact .allocate call.uri call hcall (Bool.not_eq_true _ ▸ hnew)
  | forget id =>
    cases hact
    exact .forget id
  | resumeHalf => cases hact
  | _ =>
    cases hact
    exact .idle _ rfl

/-- Only a recorded row and `forgetPair` change the pair table. -/
theorem pairs_of_act (hact : s.act c ev = some s') (hev : Handler.changesPairs ev = false) :
    s'.pairs = s.pairs := by
  cases acts_of_act hact with
  | record | forgetPair => cases hev
  | _ => rfl

/-- `forgetPair` leaves no row, for an id that is one. -/
theorem pairs_of_forgetPair {sid : UInt64} (hsid : sid ≠ 0)
    (hact : s.act c ⟨.forgetPair sid, ()⟩ = some s') : s'.pairs.get sid = none := by
  cases hact
  show (forgetPair s.pairs sid).get sid = none
  unfold forgetPair
  rw [if_neg hsid, GoMap.get_del, if_pos rfl]

/-- `Forget` leaves no entry. -/
theorem byAlloc_of_forget {id : UInt32} (hact : s.act c ⟨.forget id, ()⟩ = some s') :
    s'.allocs.plane.byAlloc.get id = none := by
  cases hact
  show (s.allocs.plane.forget id).byAlloc.get id = none
  rw [Plane.forget_byAlloc, if_pos rfl]

/-- `Allocate` returns the id of a call that has inserted it. -/
theorem call_of_allocate {uri : GoString} {id : UInt32}
    (hact : s.act c ⟨.allocate uri, id⟩ = some s') :
    ∃ (k : ℕ) (call : AllocCall), s'.allocs.calls[k]? = some call ∧ call.id = id
      ∧ call.inserted = true := by
  cases acts_of_act hact with
  | allocate _ call hcall hnew =>
    refine ⟨c.fst, { call with inserted := true }, ?_, rfl, rfl⟩
    exact List.getElem?_set_self (List.getElem?_eq_some_iff.mp hcall).1
  | idle _ hev => cases hev

/-- **A step of the allocations**: one of the plane with its calls, a `Forget` by a
handler, or none. -/
inductive Moves (a : WrapState) : WrapState → Prop
  | same : Moves a a
  | forget (id : UInt32) : Moves a { a with plane := a.plane.forget id }
  | step {e : WrapEvent} {a' : WrapState} : a.Steps e a' → Moves a a'

theorem moves_of_act (hact : s.act c ev = some s') : Moves s.allocs s'.allocs := by
  cases acts_of_act hact with
  | allocate uri call hcall hnew => exact .step (.insert c.fst c.snd call hcall hnew)
  | forget id => exact .forget id
  | _ => exact .same

theorem moves_of_env {e : TableEvent} (he : s.env e = some s') : Moves s.allocs s'.allocs := by
  cases e with
  | plane e =>
    obtain ⟨allocs, hstep, rfl⟩ := Option.map_eq_some_iff.mp he
    exact .step (WrapState.steps_of_step hstep)
  | replacePair | forgetPair =>
    cases he
    exact .same

variable {a a' : WrapState}

theorem numbered_of_moves (hN : a.Numbered) (hmove : Moves a a') : a'.Numbered := by
  cases hmove with
  | same => exact hN
  | step hstep => exact hN.step hstep
  | forget id =>
    have hop : PlaneState.step ⟨a.plane, a.clock⟩ (.forget id)
      = some ⟨a.plane.forget id, a.clock⟩ := rfl
    exact hN.of_shrinks (PlaneState.nextID_of_step rfl hop)
      (fun _ _ hu => PlaneState.ownerOf_of_step rfl hop hu)

/-- Calls are only added, and stay inserted. -/
theorem calls_of_moves (hmove : Moves a a') : a.calls.length ≤ a'.calls.length
    ∧ ∀ (k : ℕ) (call : AllocCall), a.calls[k]? = some call → call.inserted = true →
      a'.calls[k]? = some call := by
  cases hmove with
  | same | forget => exact ⟨le_rfl, fun _ _ h _ => h⟩
  | step hstep =>
    refine ⟨WrapState.length_le_of_steps hstep, fun k call hk hin => ?_⟩
    cases hstep with
    | draw uri huri hzero =>
      exact (List.getElem?_append_left (List.getElem?_eq_some_iff.mp hk).1).trans hk
    | insert j now call' hj hnew =>
      refine (List.getElem?_set_ne ?_).trans hk
      rintro rfl
      cases hj.symm.trans hk
      cases hnew.symm.trans hin
    | _ => exact hk

/-- **An id that has been given back stays so** until the counter has gone round:
the only call that inserts it has done so. -/
theorem byAlloc_of_moves (hN : a.Numbered) (hlen : a.calls.length < 2 ^ 32 - 1)
    (hmove : Moves a a') {k : ℕ} {call : AllocCall} (hk : a.calls[k]? = some call)
    (hin : call.inserted = true) (hnone : a.plane.byAlloc.get call.id = none) :
    a'.plane.byAlloc.get call.id = none := by
  have hown := Plane.ownerOf_eq_none.mpr hnone
  have hshrink : ∀ {e t}, e.isAllocate = false →
      PlaneState.step ⟨a.plane, a.clock⟩ e = some t → t.plane.byAlloc.get call.id = none := by
    intro e t hna hop
    refine Plane.ownerOf_eq_none.mp (Option.eq_none_iff_forall_ne_some.mpr fun u hu => ?_)
    cases hown.symm.trans (PlaneState.ownerOf_of_step hna hop hu)
  cases hmove with
  | same => exact hnone
  | forget id => exact hshrink (e := .forget id) rfl rfl
  | step hstep =>
    cases hstep with
    | skip | draw => exact hnone
    | forget j call' hj hin' => exact hshrink (e := .forget call'.id) rfl rfl
    | op e t hna hop => exact hshrink hna hop
    | insert j now call' hj hnew =>
      show (a.plane.byAlloc.set call'.id _).get call.id = none
      rw [GoMap.get_set, if_neg]
      · exact hnone
      · intro hid
        have hmod := (hN.id_eq_iff hj hk).mp hid
        have hjk : k = j := hmod.eq_of_lt_of_lt
          ((List.getElem?_eq_some_iff.mp hk).1.trans hlen)
          ((List.getElem?_eq_some_iff.mp hj).1.trans hlen)
        subst hjk
        cases hj.symm.trans hk
        cases hnew.symm.trans hin

end RelayTables

/-! ## Runs -/

/-- A step of the handlers of a relay. -/
abbrev HandlerStep := ServiceStep edge RelayTables AgentConn (ℕ × Time) TableEvent

/-- Handler `i` records the row of `sid`. -/
def Records (i : ℕ) (sid : UInt64) (t : HandlerStep) : Prop :=
  ∃ c p, Service.Performs t i c ⟨.recordPair sid p, true⟩

/-- **The row of `sid` is one that handler `i` has inserted**: it has been there
since the handler recorded it. -/
def RowOf (h : List HandlerStep) (i : ℕ) (sid : UInt64) : Prop :=
  ∃ n, At h n (Records i sid) ∧ Since h (n + 1) (fun t => t.post.shared.pairs.get sid ≠ none)

/-- What a handler holds at first. -/
def atFirst : Set Resource := insert (.stream .consumer) ∅

section Runs

open Handler (ledger release)

variable {cfg : EdgeConfig} {idleTTL pendingTTL start : Time} {h : List HandlerStep}
  {s s' : ServiceState edge RelayTables AgentConn} {i : ℕ} {g : Goroutine edge AgentConn}

theorem moves_of_step {e : ServiceEvent edge AgentConn (ℕ × Time) TableEvent}
    (hstep : (relayService cfg idleTTL pendingTTL start).machine.step s e = some s') :
    RelayTables.Moves s.shared.allocs s'.shared.allocs := by
  cases Service.steps_of_step hstep with
  | spawn t => exact .same
  | perform hi hact => exact RelayTables.moves_of_act hact
  | env he => exact RelayTables.moves_of_env he

theorem numbered_of_exec (hx : (relayService cfg idleTTL pendingTTL start).machine.Exec h s) :
    s.shared.allocs.Numbered := by
  refine hx.invariant (I := fun s => s.shared.allocs.Numbered) ?_ ?_
  · exact ⟨rfl, nofun, nofun, nofun⟩
  · intro s e s' _ hN hstep
    exact RelayTables.numbered_of_moves hN (moves_of_step hstep)

/-- The allocations among the events `done`: each is that of a call, and is live
only as long as it is held. -/
def Accounted (a : WrapState) (done : List EdgeEvent) : Prop :=
  ∀ uri id, (⟨.allocate uri, id⟩ : EdgeEvent) ∈ done →
    ∃ (k : ℕ) (call : AllocCall), a.calls[k]? = some call ∧ call.id = id ∧ call.inserted = true
      ∧ (.alloc id ∉ ledger.held atFirst done → a.plane.byAlloc.get id = none)

/-- Steps of others keep the account. -/
theorem Accounted.moves {a a' : WrapState} {done : List EdgeEvent} (hA : Accounted a done)
    (hN : a.Numbered) (hlen : a.calls.length < 2 ^ 32 - 1) (hmove : RelayTables.Moves a a') :
    Accounted a' done := by
  intro uri id hid
  obtain ⟨k, call, hk, rfl, hin, hnone⟩ := hA uri id hid
  refine ⟨k, call, (RelayTables.calls_of_moves hmove).2 k call hk hin, rfl, hin, fun hheld => ?_⟩
  exact RelayTables.byAlloc_of_moves hN hlen hmove hk hin (hnone hheld)

/-- A handler's own step keeps it. -/
theorem Accounted.act {c : ℕ × Time} {t t' : RelayTables} {ev : EdgeEvent} {done : List EdgeEvent}
    (hA : Accounted t.allocs done) (hN : t.allocs.Numbered)
    (hlen : t.allocs.calls.length < 2 ^ 32 - 1) (hact : t.act c ev = some t') :
    Accounted t'.allocs (done ++ [ev]) := by
  intro uri id hid
  rw [Ledger.held_concat]
  obtain hid | hid := List.mem_append.mp hid
  · have hmove := RelayTables.moves_of_act hact
    obtain ⟨k, call, hk, rfl, hin, hnone⟩ := hA.moves hN hlen hmove uri id hid
    refine ⟨k, call, hk, rfl, hin, fun hheld => ?_⟩
    by_cases hold : .alloc call.id ∈ ledger.held atFirst done
    · -- held until this step, which is then the `Forget`
      have hrel : ledger.releases ev = some (.alloc call.id) := by
        by_contra hkeep
        exact hheld (Or.inr ⟨hold, hkeep⟩)
      rw [Handler.eq_release hrel] at hact
      exact RelayTables.byAlloc_of_forget hact
    · exact hnone hold
  · cases List.mem_singleton.mp hid
    obtain ⟨k, call, hk, hcall, hin⟩ := RelayTables.call_of_allocate hact
    exact ⟨k, call, hk, hcall, hin, fun hheld => absurd (Or.inl rfl) hheld⟩

theorem accounted_of_exec (hx : (relayService cfg idleTTL pendingTTL start).machine.Exec h s)
    (hi : s.procs[i]? = some g) (hlen : s.shared.allocs.calls.length < 2 ^ 32 - 1) :
    Accounted s.shared.allocs g.done := by
  refine Service.each (P := fun _ t _ g => t.allocs.calls.length < 2 ^ 32 - 1 →
    Accounted t.allocs g.done) ?_ ?_ ?_ hx hi hlen
  · intro h s t _ _ _ uri id hid
    cases hid
  · intro h s s' i e c t done o k ans hx hstep _ hact hP hlen
    have hlen := (RelayTables.calls_of_moves (moves_of_step hstep)).1.trans_lt hlen
    exact (hP hlen).act (numbered_of_exec hx) hlen hact
  · intro h s s' i e g hx hstep _ hP hlen
    have hlen := (RelayTables.calls_of_moves (moves_of_step hstep)).1.trans_lt hlen
    exact (hP hlen).moves (numbered_of_exec hx) hlen (moves_of_step hstep)

/-- **A row that a handler has recorded** has been deleted since, unless the
handler still holds it. -/
theorem row_of_exec (hx : (relayService cfg idleTTL pendingTTL start).machine.Exec h s)
    (hi : s.procs[i]? = some g) {sid : UInt64} (hsid : sid ≠ 0) {n : ℕ}
    (hn : At h n (Records i sid)) :
    .pair sid ∈ ledger.held atFirst g.done
      ∨ ∃ m, n < m ∧ At h m (fun t => t.post.shared.pairs.get sid = none) := by
  refine Service.each (P := fun h _ i g => ∀ n, At h n (Records i sid) →
    .pair sid ∈ ledger.held atFirst g.done
      ∨ ∃ m, n < m ∧ At h m (fun t => t.post.shared.pairs.get sid = none)) ?_ ?_ ?_ hx hi n hn
  · rintro h s t _ hnew n ⟨u, hu, c, p, ω, g, k, he, -⟩
    exact absurd ⟨ω, c, he⟩ (hnew u (List.mem_of_getElem? hu))
  · rintro h s s' i e c t done o k ans hx hstep hperf hact hP n ⟨u, hu, hrec⟩
    rw [Ledger.held_concat]
    obtain hu | ⟨rfl, rfl⟩ := of_getElem?_concat hu
    · obtain hold | ⟨m, hm, hdrop⟩ := hP n ⟨u, hu, hrec⟩
      · by_cases hrel : ledger.releases ⟨o, ans⟩ = some (.pair sid)
        · have hact : s.shared.act c ⟨o, ans⟩ = some s'.shared := hact
          rw [Handler.eq_release hrel] at hact
          refine Or.inr ⟨h.length, (List.getElem?_eq_some_iff.mp hu).1, at_length ?_⟩
          exact RelayTables.pairs_of_forgetPair hsid hact
        · exact Or.inl (Or.inr ⟨hold, hrel⟩)
      · exact Or.inr ⟨m, hm, hdrop.snoc _⟩
    · obtain ⟨c', p, hperf'⟩ := hrec
      rw [(hperf.unique hperf').2]
      exact Or.inl (Or.inl rfl)
  · rintro h s s' i e g hx hstep hnot hP n ⟨u, hu, hrec⟩
    obtain hu | ⟨rfl, rfl⟩ := of_getElem?_concat hu
    · obtain hold | ⟨m, hm, hdrop⟩ := hP n ⟨u, hu, hrec⟩
      · exact Or.inl hold
      · exact Or.inr ⟨m, hm, hdrop.snoc _⟩
    · obtain ⟨c, p, ω, g, k, he, -⟩ := hrec
      exact absurd ⟨ω, c, he⟩ hnot

/-- **What a handler that has returned leaves behind.** -/
structure LeavesNothing (h : List HandlerStep) (s : ServiceState edge RelayTables AgentConn)
    (i : ℕ) (done : List EdgeEvent) : Prop where
  /-- The consumer's stream is closed. -/
  consumer : release (.stream .consumer) ∈ done
  /-- Each stream that it opened is closed, and each watchdog that it armed is
  cancelled – as each row and each allocation is given back. -/
  settled : ∀ pre ev post r, done = pre ++ ev :: post → ledger.acquires ev = some r →
    release r ∈ post
  /-- No allocation that it was issued is live. -/
  allocs : ∀ uri id, (⟨.allocate uri, id⟩ : EdgeEvent) ∈ done →
    s.shared.allocs.plane.byAlloc.get id = none
  /-- No row is one that it inserted. -/
  row : ∀ sid, sid ≠ 0 → ¬ RowOf h i sid
  /-- If it has not recorded a row, none of its steps has changed the pair table. -/
  untouched : (∀ sid p, (⟨.recordPair sid p, true⟩ : EdgeEvent) ∉ done) →
    ∀ t ∈ h, Service.IsOf i t.ev → t.post.shared.pairs = t.pre.shared.pairs

/-- **A handler releases everything it acquires on every exit**, whatever else the
relay does at the same time. -/
theorem handler_leavesNothing
    (hx : (relayService cfg idleTTL pendingTTL start).machine.Exec h s)
    (hlen : s.shared.allocs.calls.length < 2 ^ 32 - 1) (hi : s.procs[i]? = some g)
    (hret : g.rest = .ret ()) : LeavesNothing h s i g.done := by
  have hheld : ∀ r, r ∉ ledger.held atFirst g.done := by
    have hspec := Service.all_of_returned (Q := fun tr => ledger.held atFirst tr ⊆ ∅) hx hi hret
      Handler.handleConsumerStream_spec
    exact fun r hr => hspec hr
  have hcareful := Service.all_of_returned (Q := Handler.Careful) hx hi hret
    Handler.handleConsumerStream_careful
  refine ⟨?_, ?_, ?_, ?_, ?_⟩
  · have hfirst : .stream .consumer ∈ atFirst := Or.inl rfl
    obtain ⟨ev, hev, hrel⟩ := Ledger.released_of_mem hfirst (hheld _)
    exact Handler.eq_release hrel ▸ hev
  · intro pre ev post r hdone hacq
    obtain ⟨ev', hev', hrel⟩ := Ledger.released_of_acquires hacq (hdone ▸ hheld r)
    exact Handler.eq_release hrel ▸ hev'
  · intro uri id hid
    obtain ⟨k, call, -, -, -, hnone⟩ := accounted_of_exec hx hi hlen uri id hid
    exact hnone (hheld _)
  · rintro sid hsid ⟨n, hn, hsince⟩
    obtain hpair | ⟨m, hm, t, ht, hdrop⟩ := row_of_exec hx hi hsid hn
    · exact hheld _ hpair
    · exact hsince m t hm ht hdrop
  · intro hnone t ht hof
    obtain ⟨c, ev, hev, -, hact⟩ := Service.performs_of_isOf hx hi ht hof
    exact RelayTables.pairs_of_act hact (hcareful hnone ev hev)

end Runs

/-! ## A stream in forward mode -/

/-- Everyone accepts; the policy asks for the forwarding plane and for a promotion,
and `Allocate` returns `id`. -/
def forwarding (id : UInt32) : ∀ o : EdgeOp, o.Ans
  | .allocate _ => id
  | o => Handler.succeeding acceptedBy (fun _ _ _ => ⟨.allow, [], .required, .forward⟩)
      [⟨agentP.val, relayR1.relayID, []⟩] connP o

/-- A handler in forward mode, from the start to its return. The provider's agent
is forgotten while the handler waits for the streams to end. -/
def forwardedStream : List (ServiceEvent edge AgentConn (ℕ × Time) TableEvent) :=
  [.spawn connC, .env (.plane (.add agentC.val)), .env (.plane (.add agentP.val))]
    ++ List.replicate 15 (.perform 0 (forwarding 1) (0, 1))
    ++ List.replicate 5 (.perform 0 (forwarding 2) (1, 2))
    ++ [.env (.plane (.op (.forgetAgent agentP.val [2])))]
    ++ List.replicate 7 (.perform 0 (forwarding 2) (1, 2))

/-- The handler of that stream has been issued two allocations, has recorded a row
and armed a watchdog, and leaves nothing. -/
theorem forwardedStream_leavesNothing :
    ∃ h s g, (relayService edgeR1 100 30 0).machine.Exec h s
      ∧ s.procs[0]? = some g ∧ g.rest = .ret ()
      ∧ g.done.filterMap Handler.ledger.acquires = [.stream (.provider connP), .pair 7,
        .enforcement 7, .alloc 1, .alloc 2]
      ∧ LeavesNothing h s 0 g.done := by
  obtain ⟨s, g, hrun, hg, hret, hacq, hlen⟩ : ∃ s g,
      (relayService edgeR1 100 30 0).machine.run forwardedStream
        (relayService edgeR1 100 30 0).machine.init = some s
      ∧ s.procs[0]? = some g ∧ g.rest = .ret ()
      ∧ g.done.filterMap Handler.ledger.acquires = [.stream (.provider connP), .pair 7,
        .enforcement 7, .alloc 1, .alloc 2]
      ∧ s.shared.allocs.calls.length = 2 :=
    ⟨_, _, rfl, rfl, rfl, rfl, rfl⟩
  obtain ⟨h, hx, -⟩ := Machine.exec_of_run _ _ hrun
  have hfew : s.shared.allocs.calls.length < 2 ^ 32 - 1 := by
    rw [hlen]
    decide
  exact ⟨h, s, g, hx, hg, hret, hacq, handler_leavesNothing hx hfew hg hret⟩
