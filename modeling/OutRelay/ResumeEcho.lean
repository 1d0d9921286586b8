import OutRelay.ResumeSplice

/-!
# The echoes of a resumed pair

An agent that resumes a stream learns from the relay how far its peer has got:
`handleResumeHalf` writes the counters of each half on the stream of the other,
ahead of the spliced bytes. An agent that migrates back to the relay expects no
such frame. The two kinds of halves share one matcher, and the handler that goes
on to the splice is that of the half which came second – so it is the kind of the
*second* half that decides what is written on both streams.

`echoProtocol` says what has been written on the two streams of a pair, given
where the handler of the second half is. A half that came second gets what its
kind calls for; one that came first gets what the kind of the other calls for
(`echoed_iff_same_kind`).
-/

namespace HandlerPC

/-- The handler of a second half is past its echo on its own stream. -/
def echoedSelf : HandlerPC → Bool
  | .echoPeer _ | .splicing _ | .release _ | .returned => true
  | _ => false

/-- It is past both, and goes on to the splice. -/
def echoedPeer : HandlerPC → Bool
  | .splicing _ | .release _ | .returned => true
  | _ => false

/-- It has an echo before it. -/
def echoing : HandlerPC → Bool
  | .echoSelf _ | .echoPeer _ => true
  | _ => false

end HandlerPC

namespace Half

/-- What the handler of a second half writes of `src`, by its kind. -/
def echoOf (kind : HalfKind) (id : UInt64) (src : Half) : List HalfWrite :=
  match kind with
  | .resume => [.echo id src.myPos.toUInt64 src.peerAckPos.toUInt64]
  | .migrate => []

/-- **What has been written on the streams of a pair**: the second half `a`, at `i`,
and the first half `b`, at `p`. -/
structure Wrote (i p : ℕ) (a b : Half) : Prop where
  fates : a.fate = .matchedWith p ∧ b.fate = .matchedWith i ∧ a.id = b.id ∧ p < i
  second : a.written = (if a.handler.echoedSelf then echoOf a.kind a.id b else [])
    ++ (if a.handler.spliced then [.spliced p] else [])
  first : b.written = (if a.handler.echoedPeer then echoOf a.kind a.id a else [])
    ++ (if a.handler.spliced then [.spliced i] else [])
  kind : a.handler.echoing = true → a.kind = .resume

variable {i p : ℕ} {kind : HalfKind} {id : UInt64} {a b c d : Half}

theorem SameSubmission.echoOf_eq (h : b.SameSubmission d) :
    echoOf kind id d = echoOf kind id b := by
  unfold echoOf
  rw [h.positions.1, h.positions.2]

/-- The first half changes, but not what was written on its stream. -/
theorem Wrote.follow (h : a.Wrote i p b) (hsub : b.SameSubmission d) (hfate : d.fate = b.fate)
    (hw : d.written = b.written) : a.Wrote i p d where
  fates := ⟨h.fates.1, hfate.trans h.fates.2.1, h.fates.2.2.1.trans hsub.stream.1.symm,
    h.fates.2.2.2⟩
  second := hsub.echoOf_eq ▸ h.second
  first := hw.trans h.first
  kind := h.kind

/-- The handler of the second half moves on without a word. -/
theorem Wrote.silent (h : a.Wrote i p b) (hsub : a.SameSubmission c) (hfate : c.fate = a.fate)
    (hw : c.written = a.written) (hself : c.handler.echoedSelf = a.handler.echoedSelf)
    (hpeer : c.handler.echoedPeer = a.handler.echoedPeer)
    (hspl : c.handler.spliced = a.handler.spliced)
    (hkind : c.handler.echoing = true → a.kind = .resume) : c.Wrote i p b where
  fates := ⟨hfate.trans h.fates.1, h.fates.2.1, hsub.stream.1.trans h.fates.2.2.1, h.fates.2.2.2⟩
  second := by rw [hw, hself, hspl, hsub.kind, hsub.stream.1, h.second]
  first := by rw [hpeer, hspl, hsub.kind, hsub.stream.1, hsub.echoOf_eq, h.first]
  kind := fun he => hsub.kind.trans (hkind he)

/-- Where the handler of a second half can be: before the echoes, at them or past
them, or back. -/
theorem SecondOK.handler_cases (h : a.SecondOK p) :
    (a.handler = .setFlags p ∨ a.handler = .sendPeer p ∨ a.handler = .sendSelf p
      ∨ a.handler = .recv ∨ a.handler = .resolve)
    ∨ (a.handler = .echoSelf p ∨ a.handler = .echoPeer p ∨ a.handler = .splicing p
      ∨ a.handler = .release p)
    ∨ a.handler = .returned := by
  have hpeer : ∀ {q : ℕ}, a.handler.peer? = some q → q = p := h.peer_eq
  unfold SecondOK at h
  cases hh : a.handler <;> rw [hh] at h hpeer
  case waitDone => exact h.elim
  all_goals first | (obtain rfl := hpeer rfl; simp) | simp

end Half

/-- **The protocol of what is written.** -/
def echoProtocol : Rendezvous UInt64 Half where
  key := Half.id
  fate := Half.fate
  Parked a := a.written = []
  Expired a := a.written = []
  Paired := Half.Wrote
  fate_second h := h.fates.1
  fate_first h := h.fates.2.1
  key_eq h := h.fates.2.2.1
  irrefl h := Nat.lt_irrefl _ h.fates.2.2.2

namespace ResumeState

/-- The streams of all halves are as their handlers have left them. -/
def EchoInv (s : ResumeState) : Prop := echoProtocol.Inv (heap s.halves) s.pending

variable {s s' : ResumeState} {i p : ℕ} {a b : Half}

/-- What has been written in a pair. -/
theorem EchoInv.wrote (E : s.EchoInv) (hi : heap s.halves i = some a)
    (hp : heap s.halves p = some b) (hab : a.Paired i p b) : a.Wrote i p b := by
  obtain ⟨-, b', hb', hw | hw⟩ := (E.party i a hi).matched hab.fates.1
  · cases hp.symm.trans hb'
    exact hw
  · exact absurd hw.fates.2.2.2 (Nat.lt_asymm hab.fates.2.2.2)

/-! ## The steps -/

/-- Submitting a half. -/
theorem echoInv_submit (E : s.EchoInv) (kind : HalfKind) (id : UInt64)
    (uri : GoString) (myPosition peerAckPosition : UInt64) :
    (s.submit kind id uri myPosition peerAckPosition).EchoInv := by
  unfold submit EchoInv
  cases hpend : s.pending.get id with
  | none =>
    dsimp only
    rw [heap_append]
    exact E.park (heap_length _) hpend rfl rfl rfl
  | some peer =>
    obtain ⟨b, hb, hid, hf⟩ := E.waits id peer hpend
    obtain ⟨-, hwait⟩ := (E.party peer b hb).parked hf
    dsimp only
    rw [heap_modify_append hb]
    refine E.pairUp (heap_length _) hb hpend rfl ?_
    exact ⟨⟨rfl, rfl, hid.symm, heap_lt hb⟩, rfl, hwait, fun h => by cases h⟩

/-- The second half of a pair changes. -/
theorem EchoInv.setSecond (E : s.EchoInv) (hi : heap s.halves i = some a)
    (hp : heap s.halves p = some b) (hw : a.Wrote i p b) {f : Half → Half}
    (hfb : (f a).Wrote i p b) : (s.modifyHalf i f).EchoInv := by
  unfold EchoInv
  rw [heap_modify hi]
  exact E.updateSecond hi hp hw hfb

/-- The first half of a pair changes. -/
theorem EchoInv.setFirst (E : s.EchoInv) (hi : heap s.halves i = some a)
    (hp : heap s.halves p = some b) (hw : a.Wrote i p b) {f : Half → Half}
    (hfb : a.Wrote i p (f b)) : (s.modifyHalf p f).EchoInv := by
  unfold EchoInv
  rw [heap_modify hp]
  exact E.updateFirst hi hp hw hfb

/-- Both halves of a pair change. -/
theorem EchoInv.setPair (E : s.EchoInv) (hi : heap s.halves i = some a)
    (hp : heap s.halves p = some b) (hw : a.Wrote i p b) {f g : Half → Half}
    (hid : (f a).id = a.id ∧ (g b).id = b.id) (hfg : (f a).Wrote i p (g b)) :
    ((s.modifyHalf p g).modifyHalf i f).EchoInv := by
  unfold EchoInv
  rw [heap_modify_two (Nat.ne_of_lt hw.fates.2.2.2) hp hi]
  exact E.updatePair hi hp hw hid.1 hid.2 hfg

/-- **A half that did not come second changes**, but not what was written on its
stream. -/
theorem EchoInv.setOther (E : s.EchoInv) (I : s.SpliceInv) (hi : heap s.halves i = some a)
    (hexp : a.expiry ≠ none) {f : Half → Half} (hsub : a.SameSubmission (f a))
    (hfate : (f a).fate = a.fate) (hw : (f a).written = a.written) :
    (s.modifyHalf i f).EchoInv := by
  have hok := E.party i a hi
  cases hf : a.fate with
  | parked =>
    unfold EchoInv
    rw [heap_modify hi]
    exact E.updateParked hi hf hsub.stream.1 (hfate.trans hf) (hw.trans (hok.parked hf).2)
  | expired =>
    unfold EchoInv
    rw [heap_modify hi]
    exact E.updateExpired hi hf hsub.stream.1 (hfate.trans hf) (hw.trans (hok.expired hf).2)
  | matchedWith q =>
    obtain ⟨-, b, hb, hab | hab⟩ := (I.halves.party i a hi).matched hf
    · exact absurd hab.goroutines.1 hexp
    · have hwrote := E.wrote hb hi hab
      exact E.setFirst hb hi hwrote (hwrote.follow hsub hfate hw)

theorem EchoInv.afterChan {β : Type} {r : ChanResult β} {k : β → ResumeState}
    (h : s.afterChan r k = some s') (hcalm : s'.panicked = false) (hk : ∀ m, (k m).EchoInv) :
    s'.EchoInv := by
  obtain ⟨-, rfl⟩ | ⟨m, -, rfl⟩ := ChanResult.of_andThen h
  · cases hcalm
  · exact hk m

/-- A step of the handler of a half that did not come second. -/
theorem echoInv_handler_other (E : s.EchoInv) (I : s.SpliceInv) (hi : heap s.halves i = some a)
    (hexp : a.expiry ≠ none) (hstep : s.handlerStep i a = some s') (hcalm : s'.panicked = false) :
    s'.EchoInv := by
  have hbusy : ∀ {q : ℕ}, a.handler.peer? ≠ some q := by
    intro q hq
    obtain ⟨b, -, hab⟩ := I.second_of_peer hi hq
    exact hexp hab.goroutines.1
  have hset : ∀ {f : Half → Half}, a.SameSubmission (f a) → (f a).fate = a.fate →
      (f a).written = a.written → (s.modifyHalf i f).EchoInv :=
    fun hsub hfate hw => E.setOther I hi hexp hsub hfate hw
  unfold handlerStep at hstep
  cases hh : a.handler <;> rw [hh] at hstep <;> dsimp only at hstep
  case recv =>
    exact EchoInv.afterChan hstep hcalm (fun m => hset ⟨rfl, ⟨rfl, rfl⟩, rfl, rfl⟩ rfl rfl)
  case resolve =>
    split at hstep
    · split_ifs at hstep
      · split at hstep
        · cases hstep
          exact hset ⟨rfl, ⟨rfl, rfl⟩, rfl, rfl⟩ rfl rfl
        · cases hstep
          exact hset ⟨rfl, ⟨rfl, rfl⟩, rfl, rfl⟩ rfl rfl
      · cases hstep
        exact hset ⟨rfl, ⟨rfl, rfl⟩, rfl, rfl⟩ rfl rfl
    · cases hstep
      exact hset ⟨rfl, ⟨rfl, rfl⟩, rfl, rfl⟩ rfl rfl
  case waitDone =>
    split at hstep
    · cases hstep
    · exact EchoInv.afterChan hstep hcalm (fun m => hset ⟨rfl, ⟨rfl, rfl⟩, rfl, rfl⟩ rfl rfl)
  case returned => cases hstep
  all_goals exact absurd (congrArg HandlerPC.peer? hh) hbusy

/-- **The handler of a second half before the echoes** goes on in silence, and a
`MIGRATE_TO_RELAY` half straight to the splice. -/
theorem echoInv_handler_silent (E : s.EchoInv) (hi : heap s.halves i = some a)
    (hp : heap s.halves p = some b) (hab : a.Paired i p b)
    (hpc : a.handler = .setFlags p ∨ a.handler = .sendPeer p ∨ a.handler = .sendSelf p
      ∨ a.handler = .recv ∨ a.handler = .resolve)
    (hstep : s.handlerStep i a = some s') : s'.EchoInv := by
  have hw := E.wrote hi hp hab
  have hquiet : a.handler.echoedSelf = false ∧ a.handler.echoedPeer = false
      ∧ a.handler.spliced = false := by
    rcases hpc with h | h | h | h | h <;> rw [h] <;> exact ⟨rfl, rfl, rfl⟩
  obtain ⟨hself, hpeer, hspl⟩ := hquiet
  have hsec := hab.second
  unfold Half.SecondOK at hsec
  unfold handlerStep at hstep
  rcases hpc with hh | hh | hh | hh | hh <;> rw [hh] at hstep hsec <;> dsimp only at hstep
  · cases hstep
    have hnext : ({ a with splicer := true, handler := .sendPeer p } : Half).Wrote i p b :=
      hw.silent ⟨rfl, ⟨rfl, rfl⟩, rfl, rfl⟩ rfl rfl hself.symm hpeer.symm hspl.symm
        (fun h => by cases h)
    refine (E.setSecond hi hp hw hnext).setFirst ?_ ?_ hnext
      (hnext.follow ⟨rfl, ⟨rfl, rfl⟩, rfl, rfl⟩ rfl rfl)
    · rw [heap_modify hi, Function.update_self]
    · rw [heap_modify hi, Function.update_of_ne hab.ne, hp]
  · rw [show s.halves[p]? = some b from hp, Option.bind_some,
      (hab.first.untold (by rw [hh]; rfl)).2.2] at hstep
    cases hstep
    have hnext : ({ a with handler := .sendSelf p } : Half).Wrote i p b :=
      hw.silent ⟨rfl, ⟨rfl, rfl⟩, rfl, rfl⟩ rfl rfl hself.symm hpeer.symm hspl.symm
        (fun h => by cases h)
    exact E.setPair hi hp hw ⟨rfl, rfl⟩ (hnext.follow ⟨rfl, ⟨rfl, rfl⟩, rfl, rfl⟩ rfl rfl)
  · rw [hsec.2.2.1] at hstep
    cases hstep
    exact E.setSecond hi hp hw (hw.silent ⟨rfl, ⟨rfl, rfl⟩, rfl, rfl⟩ rfl rfl hself.symm hpeer.symm
      hspl.symm (fun h => by cases h))
  · rw [hsec.2.1] at hstep
    cases hstep
    exact E.setSecond hi hp hw (hw.silent ⟨rfl, ⟨rfl, rfl⟩, rfl, rfl⟩ rfl rfl hself.symm hpeer.symm
      hspl.symm (fun h => by cases h))
  · rw [hsec.2] at hstep
    dsimp only at hstep
    rw [hsec.1, if_neg (not_not.mpr rfl)] at hstep
    cases hk : a.kind <;> rw [hk] at hstep <;> cases hstep
    · exact E.setSecond hi hp hw (hw.silent ⟨rfl, ⟨rfl, rfl⟩, rfl, rfl⟩ rfl rfl hself.symm
        hpeer.symm hspl.symm (fun _ => hk))
    · -- nothing has been written, and nothing is
      have hsecond := hw.second
      have hfirst := hw.first
      rw [hself, hspl] at hsecond
      rw [hpeer, hspl] at hfirst
      refine E.setSecond hi hp hw ⟨hw.fates, ?_, ?_, fun h => by cases h⟩
      · show a.written = Half.echoOf a.kind a.id b ++ []
        rw [hsecond, hk]
        rfl
      · show b.written = Half.echoOf a.kind a.id a ++ []
        rw [hfirst, hk]
        rfl

/-- **The echoes, the splice and what follows.** -/
theorem echoInv_handler_echoing (E : s.EchoInv) (hi : heap s.halves i = some a)
    (hp : heap s.halves p = some b) (hab : a.Paired i p b)
    (hpc : a.handler = .echoSelf p ∨ a.handler = .echoPeer p ∨ a.handler = .splicing p
      ∨ a.handler = .release p)
    (hstep : s.handlerStep i a = some s') : s'.EchoInv := by
  have hw := E.wrote hi hp hab
  have hsecond := hw.second
  have hfirst := hw.first
  have hkind := hw.kind
  have hget : s.halves[p]? = some b := hp
  unfold handlerStep at hstep
  rcases hpc with hh | hh | hh | hh <;> rw [hh] at hstep hsecond hfirst hkind <;>
    dsimp only at hstep
  · rw [hget] at hstep
    cases hstep
    refine E.setSecond hi hp hw ⟨hw.fates, ?_, hfirst, fun _ => hkind rfl⟩
    show a.written ++ [_] = Half.echoOf a.kind a.id b ++ []
    rw [hsecond, hkind rfl]
    rfl
  · cases hstep
    refine E.setPair hi hp hw ⟨rfl, rfl⟩ ⟨hw.fates, hsecond, ?_, fun h => by cases h⟩
    show b.written ++ [_] = Half.echoOf a.kind a.id a ++ []
    rw [hfirst, hkind rfl]
    rfl
  · cases hstep
    refine E.setPair hi hp hw ⟨rfl, rfl⟩ ⟨hw.fates, ?_, ?_, fun h => by cases h⟩
    · show a.written ++ [_] = Half.echoOf a.kind a.id b ++ [_]
      rw [hsecond]
      exact congrArg (· ++ _) (List.append_nil _)
    · show b.written ++ [_] = Half.echoOf a.kind a.id a ++ [_]
      rw [hfirst]
      exact congrArg (· ++ _) (List.append_nil _)
  · have hdone := hab.done
    rw [hh] at hdone
    rw [hget, Option.bind_some, hdone] at hstep
    cases hstep
    have hnext : ({ a with handler := .returned } : Half).Wrote i p b :=
      hw.silent ⟨rfl, ⟨rfl, rfl⟩, rfl, rfl⟩ rfl rfl (by rw [hh]; rfl) (by rw [hh]; rfl)
        (by rw [hh]; rfl) (fun h => by cases h)
    exact E.setPair hi hp hw ⟨rfl, rfl⟩ (hnext.follow ⟨rfl, ⟨rfl, rfl⟩, rfl, rfl⟩ rfl rfl)

/-- A half without an expiry goroutine is the second of a pair. -/
theorem second_of_no_expiry (I : s.SpliceInv) (hi : heap s.halves i = some a)
    (hexp : a.expiry = none) : ∃ p b, heap s.halves p = some b ∧ a.Paired i p b := by
  have hok := I.halves.party i a hi
  cases hf : a.fate with
  | parked =>
    rcases (hok.parked hf).2.goroutines.1 with h | h <;> cases hexp.symm.trans h
  | expired => cases hexp.symm.trans (hok.expired hf).2.goroutines
  | matchedWith p =>
    obtain ⟨-, b, hb, hab | hab⟩ := hok.matched hf
    · exact ⟨p, b, hb, hab⟩
    · exact absurd hexp hab.goroutines.2.1

/-- **A step of a handler.** -/
theorem echoInv_handler (E : s.EchoInv) (I : s.SpliceInv) (hi : heap s.halves i = some a)
    (hstep : s.handlerStep i a = some s') : s'.EchoInv := by
  by_cases hexp : a.expiry = none
  · obtain ⟨p, b, hp, hab⟩ := second_of_no_expiry I hi hexp
    rcases hab.second.handler_cases with hpc | hpc | hpc
    · exact echoInv_handler_silent E hi hp hab hpc hstep
    · exact echoInv_handler_echoing E hi hp hab hpc hstep
    · unfold handlerStep at hstep
      rw [hpc] at hstep
      cases hstep
  · exact echoInv_handler_other E I hi hexp hstep (spliceInv_handler I hi hstep).calm

/-- The critical section of the expiry goroutine. -/
theorem echoInv_expire (E : s.EchoInv) (I : s.SpliceInv) (hi : heap s.halves i = some a)
    (hstep : s.expire i a = some s') : s'.EchoInv := by
  have hcalm := (spliceInv_expire I hi hstep).calm
  unfold expire at hstep
  split_ifs at hstep with hfired hpend
  · refine EchoInv.afterChan hstep hcalm (fun c => ?_)
    have hf : a.fate = .parked := (E.key_of_waiting hi hpend).2
    show echoProtocol.Inv (heap (s.modifyHalf i _).halves) _
    rw [heap_modify hi]
    exact E.discard hi hpend rfl rfl ((E.party i a hi).parked hf).2
  · cases hstep
    exact E.setOther I hi (by rw [hfired]; exact Option.some_ne_none _)
      ⟨rfl, ⟨rfl, rfl⟩, rfl, rfl⟩ rfl rfl

/-- **Every step leaves the streams as the handlers have written them.** -/
theorem echoInv_step {e : ResumeEvent} (E : s.EchoInv) (I : s.SpliceInv)
    (hstep : s.step e = some s') : s'.EchoInv := by
  have hcalm := (spliceInv_step I hstep).calm
  unfold step at hstep
  rw [I.calm, if_neg Bool.false_ne_true] at hstep
  cases e with
  | submit kind id uri myPosition peerAckPosition =>
    cases hstep
    exact echoInv_submit E kind id uri myPosition peerAckPosition
  | handler i =>
    obtain ⟨a, hi, hstep⟩ := Option.bind_eq_some_iff.mp hstep
    exact echoInv_handler E I hi hstep
  | expiryRecv i =>
    obtain ⟨a, hi, hstep⟩ := Option.bind_eq_some_iff.mp hstep
    unfold expiryRecv at hstep
    split_ifs at hstep with hsel
    refine EchoInv.afterChan hstep hcalm (fun m => ?_)
    exact E.setOther I hi (by rw [hsel]; exact Option.some_ne_none _)
      ⟨rfl, ⟨rfl, rfl⟩, rfl, rfl⟩ rfl rfl
  | timerFire i =>
    obtain ⟨a, hi, hstep⟩ := Option.bind_eq_some_iff.mp hstep
    unfold timerFire at hstep
    split_ifs at hstep with hsel
    cases hstep
    exact E.setOther I hi (by rw [hsel]; exact Option.some_ne_none _)
      ⟨rfl, ⟨rfl, rfl⟩, rfl, rfl⟩ rfl rfl
  | expire i =>
    obtain ⟨a, hi, hstep⟩ := Option.bind_eq_some_iff.mp hstep
    exact echoInv_expire E I hi hstep

theorem echoInv_of_reachable (hs : resumeMachine.Reachable s) : s.EchoInv := by
  refine hs.invariant (I := EchoInv) ?_ (fun hs E hstep => ?_)
  · exact echoProtocol.inv_empty
  · exact echoInv_step E (spliceInv_of_reachable hs) hstep

end ResumeState

/-! ## What the agents receive -/

/-- What an agent submits a half with. -/
structure Submission where
  kind : HalfKind
  id : UInt64
  uri : GoString
  myPosition : UInt64
  peerAckPosition : UInt64

namespace Submission

def event (x : Submission) : ResumeEvent :=
  .submit x.kind x.id x.uri x.myPosition x.peerAckPosition

/-- The half was submitted so. -/
structure Made (x : Submission) (a : Half) : Prop where
  kind : a.kind = x.kind
  stream : a.id = x.id ∧ a.uri = x.uri
  positions : a.myPos = x.myPosition.toInt64 ∧ a.peerAckPos = x.peerAckPosition.toInt64

/-- **What the agent expects ahead of the spliced bytes**: the counters of its peer, if
it resumed. -/
def expects (own peer : Submission) : List HalfWrite :=
  match own.kind with
  | .resume => [.echo own.id peer.myPosition peer.peerAckPosition]
  | .migrate => []

/-- The stream of the half has what its agent expects, and then at most the bytes of
the half at `q`. -/
def Hears (own peer : Submission) (q : ℕ) (a : Half) : Prop :=
  a.written = own.expects peer ∨ a.written = own.expects peer ++ [.spliced q]

variable {own peer x y : Submission} {a b : Half} {q : ℕ}

theorem Made.of_sameSubmission (h : x.Made a) (hsub : a.SameSubmission b) : x.Made b :=
  ⟨hsub.kind.trans h.kind, ⟨hsub.stream.1.trans h.stream.1, hsub.stream.2.trans h.stream.2⟩,
    hsub.positions.1.trans h.positions.1, hsub.positions.2.trans h.positions.2⟩

/-- The counters survive the way through the signed integers. -/
theorem Made.echoOf_eq (h : x.Made a) (kind : HalfKind) (id : UInt64) :
    Half.echoOf kind id a = ({ x with kind := kind, id := id } : Submission).expects x := by
  unfold Half.echoOf expects
  rw [h.positions.1, h.positions.2, UInt64.toUInt64_toInt64, UInt64.toUInt64_toInt64]

/-- A stream with what another kind of half expects is as expected when the kinds
agree. -/
theorem hears_iff {kind : HalfKind}
    (h : b.written = ({ y with kind := kind } : Submission).expects x
      ∨ b.written = ({ y with kind := kind } : Submission).expects x ++ [.spliced q]) :
    y.Hears x q b ↔ kind = y.kind := by
  constructor
  · intro hy
    unfold Hears expects at hy
    unfold expects at h
    cases kind <;> cases hk : y.kind <;> rw [hk] at hy <;> rcases h with h | h <;> rw [h] at hy <;>
      simp at hy ⊢
  · rintro rfl
    exact h

end Submission

/-- Half `i` was submitted as `x` in the run. -/
def SubmittedAs (h : List (Transition ResumeState ResumeEvent)) (i : ℕ) (x : Submission) : Prop :=
  ∃ t ∈ h, t.ev = x.event ∧ t.pre.halves.length = i

section Echoes

variable {h : List (Transition ResumeState ResumeEvent)} {s : ResumeState} {i p : ℕ}
variable {x y : Submission} {a b : Half}

open ResumeState

/-- **A half keeps what it was submitted with.** -/
theorem made_of_submitted (hx : resumeMachine.Exec h s) (hi : SubmittedAs h i x) :
    ∃ a, heap s.halves i = some a ∧ x.Made a := by
  induction hx with
  | nil =>
    obtain ⟨t, ht, -⟩ := hi
    cases ht
  | @snoc h s s' e hx hstep ih =>
    have I := spliceInv_of_reachable ⟨_, hx⟩
    obtain ⟨t, ht, hev, hlen⟩ := hi
    rcases List.mem_append.mp ht with ht | ht
    · obtain ⟨a, ha, hmade⟩ := ih ⟨t, ht, hev, hlen⟩
      obtain ⟨c, hc, hsub, -⟩ := (evolves_step I hstep).old i a ha
      exact ⟨c, hc, hmade.of_sameSubmission hsub⟩
    · cases List.mem_singleton.mp ht
      obtain rfl : e = x.event := hev
      obtain rfl : s.halves.length = i := hlen
      have hs' : s' = s.submit x.kind x.id x.uri x.myPosition x.peerAckPosition := by
        have hsome : (if s.panicked then none
          else some (s.submit x.kind x.id x.uri x.myPosition x.peerAckPosition)) = some s' := hstep
        rw [I.calm, if_neg Bool.false_ne_true] at hsome
        exact (Option.some.inj hsome).symm
      subst hs'
      unfold ResumeState.submit
      cases s.pending.get x.id with
      | none => exact ⟨_, List.getElem?_concat_length, rfl, ⟨rfl, rfl⟩, rfl, rfl⟩
      | some q =>
        have hlen : (s.halves.modify q
            (fun h => { h with fate := .matchedWith s.halves.length })).length
              = s.halves.length := List.length_modify _ _ _
        dsimp only
        rw [heap_append, hlen, Function.update_self]
        exact ⟨_, rfl, rfl, ⟨rfl, rfl⟩, rfl, rfl⟩

/-- **What the two streams of a pair have**, when the handler of the second half `i` is
at the splice: what the kind of the second half calls for. -/
theorem written_at_splice (hx : resumeMachine.Exec h s) (hi : heap s.halves i = some a)
    (hp : heap s.halves p = some b) (hx' : x.Made a) (hy : y.Made b) (hab : a.Paired i p b)
    (hat : a.handler.echoedPeer = true) :
    (a.written = x.expects y ∧ b.written = ({ y with kind := x.kind } : Submission).expects x)
    ∨ (a.written = x.expects y ++ [.spliced p]
      ∧ b.written = ({ y with kind := x.kind } : Submission).expects x ++ [.spliced i]) := by
  have hw := (echoInv_of_reachable ⟨_, hx⟩).wrote hi hp hab
  have hself : a.handler.echoedSelf = true := by
    revert hat
    cases a.handler <;> simp [HandlerPC.echoedSelf, HandlerPC.echoedPeer]
  have hid : x.id = y.id := hx'.stream.1.symm.trans (hab.fates.2.2.1.trans hy.stream.1)
  have hsecond := hw.second
  have hfirst := hw.first
  rw [hself, if_pos rfl, hy.echoOf_eq, hx'.kind, hx'.stream.1] at hsecond
  rw [hat, if_pos rfl, hx'.echoOf_eq, hx'.kind, hx'.stream.1, hid] at hfirst
  cases hspl : a.handler.spliced with
  | false =>
    rw [hspl] at hsecond hfirst
    exact Or.inl ⟨hsecond.trans (List.append_nil _), hfirst.trans (List.append_nil _)⟩
  | true =>
    rw [hspl] at hsecond hfirst
    exact Or.inr ⟨hsecond, hfirst⟩

/-- A half that has its peer keeps it. -/
theorem matched_of_run {es : List ResumeEvent} {s' : ResumeState} (I : s.SpliceInv)
    (hrun : resumeMachine.run es s = some s') (hi : heap s.halves i = some a)
    (hf : a.fate = .matchedWith p) :
    s'.SpliceInv ∧ ∃ c, heap s'.halves i = some c ∧ c.fate = .matchedWith p := by
  induction es generalizing s a with
  | nil =>
    cases hrun
    exact ⟨I, a, hi, hf⟩
  | cons e es ih =>
    obtain ⟨s₁, hstep, hrun⟩ := Option.bind_eq_some_iff.mp hrun
    obtain ⟨c, hc, -, hfc⟩ := (evolves_step I hstep).settled hi (fun h => by cases h.symm.trans hf)
    exact ih (spliceInv_step I hstep) hrun hc (hfc.trans hf)

/-- **The handler of a second half gets to its splice**, by steps of its own. -/
theorem reaches_splice (I : s.SpliceInv) (hi : heap s.halves i = some a)
    (hp : heap s.halves p = some b) (hab : a.Paired i p b) :
    ∃ n s' c, resumeMachine.run (List.replicate n (.handler i)) s = some s'
      ∧ heap s'.halves i = some c ∧ c.handler.echoedPeer = true := by
  obtain ⟨n, s', c, hrun, hc, hspl⟩ := splice_runs I hi hp hab
  refine ⟨n, s', c, hrun, hc, ?_⟩
  obtain ⟨I', c', hc', hf⟩ := matched_of_run I hrun hi hab.fates.1
  cases hc.symm.trans hc'
  obtain ⟨d, -, hcd⟩ := I'.second_of_lt hc hf hab.fates.2.2.2
  have hspliced := hcd.splices.1
  rw [hspl] at hspliced
  revert hspliced
  cases c.handler <;> simp [HandlerPC.spliced, HandlerPC.echoedPeer]

end Echoes

/-- **When both agents hear what they expect.** Let half `i` be submitted as `x` and half
`p` as `y`, and be matched, `i` after `p`. Once the handler of `i` is at the
splice, both streams have what their agents expect exactly when the two were
submitted with frames of one kind; and from any state on, some steps of that
handler take it there. -/
theorem echoed_iff_same_kind {h : List (Transition ResumeState ResumeEvent)} {s : ResumeState}
    {i p : ℕ} {x y : Submission} {a b : Half} (hx : resumeMachine.Exec h s)
    (hsi : SubmittedAs h i x) (hsp : SubmittedAs h p y) (hlt : p < i)
    (hi : heap s.halves i = some a) (hp : heap s.halves p = some b)
    (hmatch : a.fate = .matchedWith p) :
    (a.handler.echoedPeer = true → (x.Hears y p a ∧ y.Hears x i b ↔ x.kind = y.kind))
    ∧ ∃ n s' c, resumeMachine.run (List.replicate n (.handler i)) s = some s'
      ∧ heap s'.halves i = some c ∧ c.handler.echoedPeer = true := by
  have I := ResumeState.spliceInv_of_reachable ⟨_, hx⟩
  obtain ⟨b', hb', hab⟩ := I.second_of_lt hi hmatch hlt
  cases hp.symm.trans hb'
  obtain ⟨a', ha', hxa⟩ := made_of_submitted hx hsi
  cases hi.symm.trans ha'
  obtain ⟨b', hb', hyb⟩ := made_of_submitted hx hsp
  cases hp.symm.trans hb'
  refine ⟨fun hat => ?_, reaches_splice I hi hp hab⟩
  have hwritten := written_at_splice hx hi hp hxa hyb hab hat
  have hself : x.Hears y p a := hwritten.imp (fun h => h.1) (fun h => h.1)
  rw [and_iff_right hself]
  exact Submission.hears_iff (hwritten.imp (fun h => h.2) (fun h => h.2))

/-- A `STREAM_RESUME` half of stream 9, and a `MIGRATE_TO_RELAY` half of it. -/
def resumedHalf : Submission := ⟨.resume, 9, go "c1", 0xffffffffffffffff, 7⟩

def migratedHalf : Submission := ⟨.migrate, 9, go "p1", 5, 3⟩

/-- The steps of the handler of the second half. -/
def handlerOne (n : ℕ) : List ResumeEvent := List.replicate n (.handler 1)

/-- Two halves are submitted, one after the other, before anything else happens. -/
theorem exec_of_two_halves {x y : Submission} {es : List ResumeEvent} {s : ResumeState}
    (hrun : resumeMachine.run (x.event :: y.event :: es) resumeMachine.init = some s) :
    ∃ h, resumeMachine.Exec h s ∧ SubmittedAs h 0 x ∧ SubmittedAs h 1 y := by
  obtain ⟨s₁, h₁, hrun⟩ := Option.bind_eq_some_iff.mp hrun
  obtain ⟨s₂, h₂, hrun⟩ := Option.bind_eq_some_iff.mp hrun
  obtain ⟨h', hx, -⟩ := ((Machine.Exec.nil.snoc h₁).snoc h₂).append_run hrun
  refine ⟨_, hx, ⟨⟨resumeMachine.init, x.event, s₁⟩, by simp, rfl, rfl⟩,
    ⟨⟨s₁, y.event, s₂⟩, by simp, rfl, ?_⟩⟩
  cases h₁
  exact ResumeState.length_submit

/-- A resumed half that comes first is told nothing, and a migrated one that comes first
is sent a frame it does not expect. -/
theorem mixed_pair_misheard :
    (∃ h s b, resumeMachine.Exec h s ∧ SubmittedAs h 0 resumedHalf ∧ SubmittedAs h 1 migratedHalf
      ∧ heap s.halves 0 = some b ∧ b.fate = .matchedWith 1 ∧ b.written = [.spliced 1]
      ∧ ¬ resumedHalf.Hears migratedHalf 1 b)
    ∧ ∃ h s b, resumeMachine.Exec h s ∧ SubmittedAs h 0 migratedHalf ∧ SubmittedAs h 1 resumedHalf
      ∧ heap s.halves 0 = some b ∧ b.fate = .matchedWith 1
      ∧ b.written = [.echo 9 0xffffffffffffffff 7, .spliced 1]
      ∧ ¬ migratedHalf.Hears resumedHalf 1 b := by
  constructor
  · obtain ⟨s, b, hrun, hb, hf, hw⟩ :
        ∃ s b, resumeMachine.run (resumedHalf.event :: migratedHalf.event :: handlerOne 6)
            resumeMachine.init = some s
          ∧ heap s.halves 0 = some b ∧ b.fate = .matchedWith 1 ∧ b.written = [.spliced 1] :=
      ⟨_, _, rfl, rfl, rfl, rfl⟩
    obtain ⟨h, hx, hfirst, hsecond⟩ := exec_of_two_halves hrun
    refine ⟨h, s, b, hx, hfirst, hsecond, hb, hf, hw, ?_⟩
    unfold Submission.Hears
    rw [hw]
    decide
  · obtain ⟨s, b, hrun, hb, hf, hw⟩ :
        ∃ s b, resumeMachine.run (migratedHalf.event :: resumedHalf.event :: handlerOne 8)
            resumeMachine.init = some s
          ∧ heap s.halves 0 = some b ∧ b.fate = .matchedWith 1
          ∧ b.written = [.echo 9 0xffffffffffffffff 7, .spliced 1] :=
      ⟨_, _, rfl, rfl, rfl, rfl⟩
    obtain ⟨h, hx, hfirst, hsecond⟩ := exec_of_two_halves hrun
    refine ⟨h, s, b, hx, hfirst, hsecond, hb, hf, hw, ?_⟩
    unfold Submission.Hears
    rw [hw]
    decide

/-- Two resumed halves hear of each other. -/
theorem resumed_pair_heard :
    ∃ h s a b, resumeMachine.Exec h s ∧ heap s.halves 1 = some a ∧ heap s.halves 0 = some b
      ∧ a.handler = .release 0
      ∧ ({ resumedHalf with uri := go "p1" } : Submission).Hears resumedHalf 0 a
      ∧ resumedHalf.Hears { resumedHalf with uri := go "p1" } 1 b := by
  obtain ⟨s, a, b, hrun, ha, hb, hf, hh⟩ :
      ∃ s a b, resumeMachine.run (resumedHalf.event
            :: Submission.event { resumedHalf with uri := go "p1" } :: handlerOne 8)
          resumeMachine.init = some s
        ∧ heap s.halves 1 = some a ∧ heap s.halves 0 = some b ∧ a.fate = .matchedWith 0
        ∧ a.handler = .release 0 :=
    ⟨_, _, _, rfl, rfl, rfl, rfl, rfl⟩
  obtain ⟨h, hx, hfirst, hsecond⟩ := exec_of_two_halves hrun
  have hheard := ((echoed_iff_same_kind hx hsecond hfirst Nat.zero_lt_one ha hb hf).1
    (by rw [hh]; rfl)).mpr rfl
  exact ⟨h, s, a, b, hx, ha, hb, hh, hheard.1, hheard.2⟩
