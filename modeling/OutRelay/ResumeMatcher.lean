import OutRelay.GoChan
import OutRelay.GoString
import OutRelay.Rendezvous
import OutRelay.Run

/-!
# Pairing the halves of a resumed stream

When a relay dies, both ends of a stream reconnect elsewhere and each opens a
new stream for its *half*. The relay pairs the halves by stream id
(`resumeMatcher`) and splices them. The half that comes first is parked; the
one that completes the pair tells both of each other, over a channel of
capacity one that each half carries, and runs the splice.

Three goroutines work on a half. Its handler submits it, waits on its
channel, and goes on with the peer it receives. The handler of the second half
sends on both channels, one after the other, outside the lock. And a parked
half has an expiry goroutine, which waits on the *same channel* and on a
timer: the channel to learn that the half has been matched, the timer to
discard it.

The machine below takes one step of one goroutine at a time. A half is a
record on a heap, named by its position. Two of its fields are not in the
source: `got` is the variable in which the handler keeps what it received, and
`fate` records what became of the half in the critical section that took it
out of `pending`.
-/

/-- The frame a half was submitted with: `STREAM_RESUME` or
`MIGRATE_TO_RELAY`. -/
inductive HalfKind
  | resume
  | migrate
  deriving DecidableEq

/-- Where the handler of a half is: in `Submit` (the first three), at the
receive, and after it. -/
inductive HandlerPC
  | setFlags (peer : ℕ)
  | sendPeer (peer : ℕ)
  | sendSelf (peer : ℕ)
  | recv
  | resolve
  | waitDone
  | echoSelf (peer : ℕ)
  | echoPeer (peer : ℕ)
  | splicing (peer : ℕ)
  | release (peer : ℕ)
  | returned
  deriving DecidableEq

/-- Where the expiry goroutine of a parked half is. -/
inductive ExpiryPC
  | select
  | fired
  | exited
  deriving DecidableEq

/-- What the relay writes on the stream of a half: the echo of the peer's
counters, and the bytes of the splice. -/
inductive HalfWrite
  | echo (streamID myPosition peerAckPosition : UInt64)
  | spliced (peer : ℕ)
  deriving DecidableEq

/-- `halfStream`, with the goroutines that work on it. -/
structure Half where
  kind : HalfKind
  id : UInt64
  uri : GoString
  myPos : Int64
  peerAckPos : Int64
  matched : GoChan ℕ
  splicer : Bool
  done : Option (GoChan Unit)
  written : List HalfWrite
  streamClosed : Bool
  handler : HandlerPC
  got : Option (Option ℕ)
  expiry : Option ExpiryPC
  fate : Fate
  deriving DecidableEq

/-- `resumeMatcher`, with the halves that have been submitted to it. -/
structure ResumeState where
  halves : List Half
  pending : GoMap UInt64 ℕ
  panicked : Bool

/-- A step of one goroutine. The expiry goroutine chooses in its `select`
between a receive and the timer. -/
inductive ResumeEvent
  | submit (kind : HalfKind) (id : UInt64) (uri : GoString) (myPosition peerAckPosition : UInt64)
  | handler (i : ℕ)
  | expiryRecv (i : ℕ)
  | timerFire (i : ℕ)
  | expire (i : ℕ)

namespace ResumeState

/-- Update the half at `i`. -/
abbrev modifyHalf (s : ResumeState) (i : ℕ) (f : Half → Half) : ResumeState :=
  { s with halves := s.halves.modify i f }

/-- Go on with the result of a channel operation; a panic is noted. -/
abbrev afterChan {β : Type} (s : ResumeState) (r : ChanResult β) (k : β → ResumeState) :
    Option ResumeState :=
  r.andThen { s with panicked := true } k

/-- The critical section of `Submit`. The second half takes its peer out of
`pending` and has both sends before it; the first is parked, and gets an
expiry goroutine. -/
def submit (s : ResumeState) (kind : HalfKind) (id : UInt64) (uri : GoString)
    (myPosition peerAckPosition : UInt64) : ResumeState :=
  let self : Half :=
    { kind := kind, id := id, uri := uri, myPos := myPosition.toInt64,
      peerAckPos := peerAckPosition.toInt64, matched := GoChan.make 1, splicer := false,
      done := none, written := [], streamClosed := false, handler := .recv, got := none,
      expiry := none, fate := .parked }
  match s.pending.get id with
  | some peer =>
    { s with
      halves := s.halves.modify peer (fun h => { h with fate := .matchedWith s.halves.length })
        ++ [{ self with handler := .setFlags peer, fate := .matchedWith peer }]
      pending := s.pending.del id }
  | none =>
    { s with
      halves := s.halves ++ [{ self with done := some (GoChan.make 0), expiry := some .select }]
      pending := s.pending.set id s.halves.length }

/-- **The next step of the handler of a half**: the rest of `Submit`, then
`handleResumeHalf` or `handleMigrateToRelay` from the receive on, and
`splicePair`. -/
def handlerStep (s : ResumeState) (i : ℕ) (h : Half) : Option ResumeState :=
  match h.handler with
  | .setFlags p =>
    some ((s.modifyHalf i (fun h => { h with splicer := true, handler := .sendPeer p })).modifyHalf
      p (fun h => { h with splicer := false }))
  | .sendPeer p =>
    (s.halves[p]?).bind (fun peer =>
      s.afterChan (peer.matched.send i) (fun c =>
        (s.modifyHalf p (fun h => { h with matched := c })).modifyHalf i
          (fun h => { h with handler := .sendSelf p })))
  | .sendSelf p =>
    s.afterChan (h.matched.send p) (fun c =>
      s.modifyHalf i (fun h => { h with matched := c, handler := .recv }))
  | .recv =>
    s.afterChan h.matched.recv (fun r =>
      s.modifyHalf i (fun h => { h with matched := r.snd, got := some r.fst, handler := .resolve }))
  | .resolve =>
    match h.got with
    | some (some p) =>
      if ¬ h.splicer then some (s.modifyHalf i (fun h => { h with handler := .waitDone }))
      else match h.kind with
        | .resume => some (s.modifyHalf i (fun h => { h with handler := .echoSelf p }))
        | .migrate => some (s.modifyHalf i (fun h => { h with handler := .splicing p }))
    | _ =>
      -- the window expired without a peer
      some (s.modifyHalf i (fun h => { h with streamClosed := true, handler := .returned }))
  | .waitDone =>
    match h.done with
    | none => none
    | some done =>
      s.afterChan done.recv (fun _ =>
        s.modifyHalf i (fun h => { h with streamClosed := true, handler := .returned }))
  | .echoSelf p =>
    (s.halves[p]?).bind (fun peer =>
      some (s.modifyHalf i (fun h => { h with
        written := h.written ++ [.echo h.id peer.myPos.toUInt64 peer.peerAckPos.toUInt64]
        handler := .echoPeer p })))
  | .echoPeer p =>
    some ((s.modifyHalf p (fun peer => { peer with
        written := peer.written
          ++ [.echo h.id h.myPos.toUInt64 h.peerAckPos.toUInt64] })).modifyHalf
      i (fun h => { h with handler := .splicing p }))
  | .splicing p =>
    -- `splice.Bidirectional` returns, and both streams are closed
    some ((s.modifyHalf p (fun peer => { peer with
        written := peer.written ++ [.spliced i], streamClosed := true })).modifyHalf i
      (fun h => { h with
        written := h.written ++ [.spliced p], streamClosed := true, handler := .release p }))
  | .release p =>
    (s.halves[p]?).bind (fun peer =>
      match peer.done with
      | none => some { s with panicked := true }
      | some done =>
        s.afterChan done.close (fun c =>
          (s.modifyHalf p (fun peer => { peer with done := some c })).modifyHalf i
            (fun h => { h with handler := .returned })))
  | .returned => none

/-- The expiry goroutine receives from the channel of its half, and exits: it
takes the half for matched. -/
def expiryRecv (s : ResumeState) (i : ℕ) (h : Half) : Option ResumeState :=
  if h.expiry = some .select then
    s.afterChan h.matched.recv (fun r =>
      s.modifyHalf i (fun h => { h with matched := r.snd, expiry := some .exited }))
  else none

/-- The timer of a parked half fires, and its expiry goroutine goes for the
lock. -/
def timerFire (s : ResumeState) (i : ℕ) (h : Half) : Option ResumeState :=
  if h.expiry = some .select then
    some (s.modifyHalf i (fun h => { h with expiry := some .fired }))
  else none

/-- The critical section of the expiry goroutine, and the `close` after it:
unless a peer came first, the half is taken out of `pending` and its channel
closed. -/
def expire (s : ResumeState) (i : ℕ) (h : Half) : Option ResumeState :=
  if h.expiry = some .fired then
    if s.pending.get h.id = some i then
      s.afterChan h.matched.close (fun c =>
        { s.modifyHalf i (fun h => { h with
            matched := c, expiry := some .exited, fate := .expired }) with
          pending := s.pending.del h.id })
    else some (s.modifyHalf i (fun h => { h with expiry := some .exited }))
  else none

/-- **One step.** A panic is the end of the process. -/
def step (s : ResumeState) (e : ResumeEvent) : Option ResumeState :=
  if s.panicked then none
  else match e with
    | .submit kind id uri myPosition peerAckPosition =>
      some (s.submit kind id uri myPosition peerAckPosition)
    | .handler i => (s.halves[i]?).bind (s.handlerStep i)
    | .expiryRecv i => (s.halves[i]?).bind (s.expiryRecv i)
    | .timerFire i => (s.halves[i]?).bind (s.timerFire i)
    | .expire i => (s.halves[i]?).bind (s.expire i)

end ResumeState

/-- **The matcher as a machine.** -/
def resumeMachine : Machine ResumeState ResumeEvent := ⟨⟨[], ∅, false⟩, ResumeState.step⟩

/-! ## Delivery -/

/-- The outcome of a half that has left `pending`: its peer, or nil. -/
def Half.outcome (h : Half) : Option ℕ :=
  match h.fate with
  | .matchedWith p => some p
  | _ => none

/-- The `Submit` that matched half `i` has still to send on its channel. -/
def ResumeState.SendOwed (s : ResumeState) (i : ℕ) : Prop :=
  (∃ h p, s.halves[i]? = some h
      ∧ (h.handler = .setFlags p ∨ h.handler = .sendPeer p ∨ h.handler = .sendSelf p))
    ∨ ∃ (j : ℕ) (h : Half), s.halves[j]? = some h
      ∧ (h.handler = .setFlags i ∨ h.handler = .sendPeer i)

/-- **No delivery is lost**: a half that has left `pending`, and to which no
send is owed any more, has its outcome – its handler has received it, or can
still receive it. -/
def ResumeState.NoneLost (s : ResumeState) : Prop :=
  ∀ i h, s.halves[i]? = some h → s.pending.get h.id ≠ some i → ¬ s.SendOwed i →
    h.got = some h.outcome ∨ (h.got = none ∧ h.matched.Receivable h.outcome)

/-! ## What delivery depends on -/

/-- What the handler of a half still has to send. -/
inductive Phase
  | owesBoth (peer : ℕ)
  | owesSelf (peer : ℕ)
  | waiting
  | past
  deriving DecidableEq

def HandlerPC.phase : HandlerPC → Phase
  | .setFlags p => .owesBoth p
  | .sendPeer p => .owesBoth p
  | .sendSelf p => .owesSelf p
  | .recv => .waiting
  | _ => .past

theorem HandlerPC.phase_eq_owesBoth {pc : HandlerPC} {p : ℕ} :
    pc.phase = .owesBoth p ↔ pc = .setFlags p ∨ pc = .sendPeer p := by
  cases pc <;> simp [phase]

theorem HandlerPC.phase_eq_owesSelf {pc : HandlerPC} {p : ℕ} :
    pc.phase = .owesSelf p ↔ pc = .sendSelf p := by
  cases pc <;> simp [phase]

/-- The part of a half that delivery depends on. -/
structure HalfView where
  id : UInt64
  matched : GoChan ℕ
  got : Option (Option ℕ)
  phase : Phase
  expiry : Option ExpiryPC
  fate : Fate

def Half.view (h : Half) : HalfView :=
  ⟨h.id, h.matched, h.got, h.handler.phase, h.expiry, h.fate⟩

/-- The views of the halves on the heap. -/
def ResumeState.views (s : ResumeState) (i : ℕ) : Option HalfView := (s.halves[i]?).map Half.view

namespace HalfView

/-- Nothing has been delivered. -/
def Empty (w : HalfView) : Prop := w.got = none ∧ w.matched = GoChan.make 1

/-- The peer has been delivered: it waits on the channel, or the handler has
taken it. -/
def Delivered (w : HalfView) (peer : ℕ) : Prop :=
  (w.phase = .waiting ∧ w.got = none ∧ w.matched = ⟨1, [peer], false⟩)
    ∨ (w.phase = .past ∧ w.got = some (some peer) ∧ w.matched = GoChan.make 1)

/-- **A matched pair**: the second half `w`, at `i`, and the parked half `w'`,
at `p`. The second half owes both sends, or its own, or none. -/
def Paired (i p : ℕ) (w w' : HalfView) : Prop :=
  w.fate = .matchedWith p ∧ w'.fate = .matchedWith i ∧ w.id = w'.id
    ∧ w.expiry = none ∧ w'.expiry ≠ none
    ∧ ((w.phase = .owesBoth p ∧ w.Empty ∧ w'.phase = .waiting ∧ w'.Empty)
      ∨ (w.phase = .owesSelf p ∧ w.Empty ∧ w'.Delivered i)
      ∨ (w.Delivered p ∧ w'.Delivered i))

variable {i p : ℕ} {w w' u : HalfView}

/-- The second half takes what was delivered to it. -/
theorem Paired.took_left (h : Paired i p w w') (hd : w.Delivered p) (hid : u.id = w.id)
    (hexp : u.expiry = w.expiry) (hfate : u.fate = w.fate) (hu : u.Delivered p) :
    Paired i p u w' := by
  obtain ⟨hf, hf', hids, he, he', hstage⟩ := h
  refine ⟨hfate.trans hf, hf', hid.trans hids, hexp.trans he, he', Or.inr (Or.inr ⟨hu, ?_⟩)⟩
  have hphase : w.phase = .waiting ∨ w.phase = .past := hd.imp (fun h => h.1) (fun h => h.1)
  rcases hstage with hstage | hstage | hstage
  · rcases hphase with h | h <;> exact nomatch h.symm.trans hstage.1
  · exact hstage.2.2
  · exact hstage.2

/-- The parked half takes what was delivered to it. -/
theorem Paired.took_right (h : Paired p i w' w) (hd : w.Delivered p) (hid : u.id = w.id)
    (hexp : u.expiry = w.expiry) (hfate : u.fate = w.fate) (hu : u.Delivered p) :
    Paired p i w' u := by
  obtain ⟨hf, hf', hids, he, he', hstage⟩ := h
  refine ⟨hf, hfate.trans hf', hids.trans hid.symm, he, hexp ▸ he', ?_⟩
  rcases hstage with hstage | hstage | hstage
  · obtain ⟨-, -, hwait, -, hm⟩ := hstage
    rcases hd with ⟨-, -, hm'⟩ | ⟨hpast, -⟩
    · cases hm.symm.trans hm'
    · exact nomatch hwait.symm.trans hpast
  · exact Or.inr (Or.inl ⟨hstage.1, hstage.2.1, hu⟩)
  · exact Or.inr (Or.inr ⟨hstage.1, hu⟩)

/-- The expiry goroutine of the parked half moves on. -/
theorem Paired.expiry_right (h : Paired p i w' w) (x : ExpiryPC) :
    Paired p i w' { w with expiry := some x } :=
  ⟨h.1, h.2.1, h.2.2.1, h.2.2.2.1, nofun, h.2.2.2.2.2⟩

end HalfView

/-- **Delivery is a rendezvous** of the halves of a stream: what holds of one that is parked,
of one that has expired, and of the two of a pair. -/
def deliveryProtocol : Rendezvous UInt64 HalfView where
  key := HalfView.id
  fate := HalfView.fate
  Parked w := w.phase = .waiting ∧ w.Empty ∧ (w.expiry = some .select ∨ w.expiry = some .fired)
  Expired w := w.expiry = some .exited ∧ w.matched = ⟨1, [], true⟩
    ∧ ((w.phase = .waiting ∧ w.got = none) ∨ (w.phase = .past ∧ w.got = some none))
  Paired := HalfView.Paired
  fate_second h := h.1
  fate_first h := h.2.1
  key_eq h := h.2.2.1
  irrefl h := h.2.2.2.2.1 h.2.2.2.1

/-- **The delivery invariant.** -/
abbrev DeliveryInv (v : ℕ → Option HalfView) (pending : GoMap UInt64 ℕ) : Prop :=
  deliveryProtocol.Inv v pending

/-! ## The views after a step -/

namespace ResumeState

variable {s : ResumeState} {i : ℕ} {h : Half} {f : Half → Half}

theorem views_modifyHalf (s : ResumeState) (i : ℕ) (f : Half → Half) (j : ℕ) :
    (s.modifyHalf i f).views j
      = if i = j then (s.halves[j]?).map (fun h => (f h).view) else s.views j := by
  unfold views modifyHalf
  rw [List.getElem?_modify]
  cases s.halves[j]? <;> split_ifs <;> rfl

/-- An update of one half, as an update of the views. -/
theorem views_modifyHalf_of_get (hi : s.halves[i]? = some h) (f : Half → Half) :
    (s.modifyHalf i f).views = Function.update s.views i (some (f h).view) := by
  funext j
  rw [views_modifyHalf]
  by_cases hj : i = j
  · subst hj
    rw [if_pos rfl, hi, Function.update_self]
    rfl
  · rw [if_neg hj, Function.update_of_ne (Ne.symm hj)]

/-- An update that keeps the view of every half it may meet keeps the views. -/
theorem views_modifyHalf_of_eq (hf : ∀ h, s.halves[i]? = some h → (f h).view = h.view) :
    (s.modifyHalf i f).views = s.views := by
  funext j
  rw [views_modifyHalf]
  split_ifs with hj
  · subst hj
    unfold views
    cases hi : s.halves[i]? with
    | none => rfl
    | some h => rw [Option.map_some, Option.map_some, hf h hi]
  · rfl

/-- A handler that has received moves among the steps after the receive. -/
theorem views_of_past (hpast : ∀ w, s.views i = some w → w.phase = .past)
    (hf : ∀ h : Half, h.handler.phase = .past → (f h).view = h.view) :
    (s.modifyHalf i f).views = s.views := by
  refine views_modifyHalf_of_eq (fun h hi => hf h (hpast h.view ?_))
  unfold views
  rw [hi]
  rfl

theorem halves_modifyHalf_of_ne {j : ℕ} (hij : i ≠ j) (f : Half → Half) :
    (s.modifyHalf i f).halves[j]? = s.halves[j]? := by
  unfold modifyHalf
  rw [List.getElem?_modify]
  simp only [hij, if_false]
  cases s.halves[j]? <;> rfl

theorem views_modifyHalf_two {p : ℕ} {peer : Half} {g : Half → Half} (hne : p ≠ i)
    (hp : s.halves[p]? = some peer) (hi : s.halves[i]? = some h) :
    ((s.modifyHalf p g).modifyHalf i f).views
      = Function.update (Function.update s.views p (some (g peer).view)) i (some (f h).view) := by
  rw [views_modifyHalf_of_get ((halves_modifyHalf_of_ne hne g).trans hi),
    views_modifyHalf_of_get hp]

theorem views_of_get (hi : s.halves[i]? = some h) : s.views i = some h.view := by
  unfold views
  rw [hi]
  rfl

theorem get_of_views {w : HalfView} (hv : s.views i = some w) :
    ∃ h, s.halves[i]? = some h ∧ h.view = w :=
  Option.map_eq_some_iff.mp hv

end ResumeState

/-! ## The steps of the goroutines -/

namespace DeliveryInv

variable {v : ℕ → Option HalfView} {pending : GoMap UInt64 ℕ} {i p : ℕ} {w w' u : HalfView}

/-- Updating one half of a matched pair. -/
theorem update_half (I : DeliveryInv v pending) (hi : v i = some w) (hp : v p = some w')
    (hold : HalfView.Paired i p w w' ∨ HalfView.Paired p i w' w)
    (hpair : HalfView.Paired i p w w' → HalfView.Paired i p u w')
    (hpair' : HalfView.Paired p i w' w → HalfView.Paired p i w' u) :
    DeliveryInv (Function.update v i (some u)) pending := by
  rcases hold with hold | hold
  · exact I.updateSecond hi hp hold (hpair hold)
  · exact I.updateFirst hp hi hold (hpair' hold)

/-- **A half that owes a send is the second of a pair**, before its first send
or between the two. -/
theorem of_owes (I : DeliveryInv v pending) (hi : v i = some w)
    (hwait : w.phase ≠ .waiting) (hpast : w.phase ≠ .past) :
    ∃ p w', v p = some w' ∧ HalfView.Paired i p w w'
      ∧ ((w.phase = .owesBoth p ∧ w.Empty ∧ w'.phase = .waiting ∧ w'.Empty)
        ∨ (w.phase = .owesSelf p ∧ w.Empty ∧ w'.Delivered i)) := by
  have hdel : ∀ {q}, ¬ w.Delivered q := fun h =>
    h.elim (fun h => hwait h.1) (fun h => hpast h.1)
  have hok := I.party i w hi
  cases hf : w.fate with
  | parked => exact absurd (hok.parked hf).2.1 hwait
  | expired =>
    obtain ⟨-, -, -, hgot⟩ := hok.expired hf
    exact hgot.elim (fun h => absurd h.1 hwait) (fun h => absurd h.1 hpast)
  | matchedWith p =>
    obtain ⟨-, w', hw', hpair⟩ := hok.matched hf
    refine ⟨p, w', hw', ?_⟩
    rcases hpair with hpair | ⟨-, -, -, -, -, h | h | h⟩
    · refine ⟨hpair, ?_⟩
      rcases hpair with ⟨-, -, -, -, -, h | h | h⟩
      · exact Or.inl h
      · exact Or.inr h
      · exact absurd h.1 hdel
    · exact absurd h.2.2.1 hwait
    · exact absurd h.2.2 hdel
    · exact absurd h.2 hdel

/-- **A half whose channel has something to receive** has expired, or holds its
peer. -/
theorem of_receivable {o : Option ℕ} {c : GoChan ℕ} (I : DeliveryInv v pending)
    (hi : v i = some w) (hrecv : w.matched.recv = .done (o, c)) :
    (w.fate = .expired ∧ o = none ∧ c = w.matched ∧ w.expiry = some .exited)
    ∨ ∃ p w', v p = some w' ∧ w.fate = .matchedWith p ∧ o = some p ∧ c = GoChan.make 1
      ∧ w.Delivered p ∧ w.got = none
      ∧ (HalfView.Paired i p w w' ∨ HalfView.Paired p i w' w) := by
  have hempty : ∀ {c₀ : GoChan ℕ}, c₀ = GoChan.make 1 → c₀.recv ≠ .done (o, c) := by
    rintro _ rfl
    exact nofun
  -- a delivered half with something to receive has not received
  have hholds : ∀ {q}, w.Delivered q → o = some q ∧ c = GoChan.make 1 ∧ w.got = none := by
    rintro q (⟨hph, hgot, hm⟩ | ⟨-, -, hm⟩)
    · rw [hm] at hrecv
      cases hrecv
      exact ⟨rfl, rfl, hgot⟩
    · exact absurd hrecv (hempty hm)
  have hok := I.party i w hi
  cases hf : w.fate with
  | parked => exact absurd hrecv (hempty (hok.parked hf).2.2.1.2)
  | expired =>
    obtain ⟨-, hexp, hm, -⟩ := hok.expired hf
    rw [hm] at hrecv
    cases hrecv
    exact Or.inl ⟨rfl, rfl, hm.symm, hexp⟩
  | matchedWith q =>
    obtain ⟨-, w', hw', hpair⟩ := hok.matched hf
    have hd : w.Delivered q := by
      rcases hpair with ⟨-, -, -, -, -, h | h | h⟩ | ⟨-, -, -, -, -, h | h | h⟩
      · exact absurd hrecv (hempty h.2.1.2)
      · exact absurd hrecv (hempty h.2.1.2)
      · exact h.1
      · exact absurd hrecv (hempty h.2.2.2.2)
      · exact h.2.2
      · exact h.2
    obtain ⟨ho, hc, hgot⟩ := hholds hd
    exact Or.inr ⟨q, w', hw', rfl, ho, hc, hd, hgot, hpair⟩

end DeliveryInv

namespace ResumeState

variable {s s' : ResumeState} {i : ℕ} {h : Half}

/-- The views with a half more. -/
theorem views_append (s : ResumeState) (x : Half) (pending : GoMap UInt64 ℕ) (b : Bool) :
    (⟨s.halves ++ [x], pending, b⟩ : ResumeState).views
      = Function.update s.views s.halves.length (some x.view) := by
  funext j
  unfold views
  rcases Nat.lt_trichotomy j s.halves.length with hlt | rfl | hgt
  · rw [Function.update_of_ne (Nat.ne_of_lt hlt)]
    exact congrArg _ (List.getElem?_append_left hlt)
  · rw [Function.update_self]
    exact congrArg (Option.map Half.view) List.getElem?_concat_length
  · rw [Function.update_of_ne (Nat.ne_of_gt hgt), List.getElem?_eq_none (Nat.le_of_lt hgt)]
    refine congrArg (Option.map Half.view) (List.getElem?_eq_none ?_)
    rw [List.length_append]
    exact hgt

theorem views_length (s : ResumeState) : s.views s.halves.length = none := by
  unfold views
  rw [List.getElem?_eq_none (Nat.le_refl _)]
  rfl

/-- What a channel operation leaves: the continuation's state, or the old one
after a panic. -/
theorem of_afterChan {β : Type} {r : ChanResult β} {k : β → ResumeState}
    (hs : s.afterChan r k = some s') :
    (∃ b, r = .done b ∧ s' = k b) ∨ (s'.views = s.views ∧ s'.pending = s.pending) := by
  obtain ⟨-, rfl⟩ | hdone := ChanResult.of_andThen hs
  · exact Or.inr ⟨rfl, rfl⟩
  · exact Or.inl hdone

/-- **Submitting a half keeps the invariant**, whether it is parked or
completes a pair. -/
theorem deliveryInv_submit (I : DeliveryInv s.views s.pending) (kind : HalfKind) (id : UInt64)
    (uri : GoString) (myPosition peerAckPosition : UInt64) :
    DeliveryInv (s.submit kind id uri myPosition peerAckPosition).views
      (s.submit kind id uri myPosition peerAckPosition).pending := by
  have hnone := s.views_length
  unfold submit
  cases hpend : s.pending.get id with
  | none =>
    dsimp only
    rw [views_append]
    exact I.park hnone hpend rfl rfl ⟨rfl, ⟨rfl, rfl⟩, Or.inl rfl⟩
  | some peer =>
    obtain ⟨w, hw, hid, hfate⟩ := I.waits id peer hpend
    obtain ⟨h, hh, rfl⟩ := get_of_views hw
    obtain ⟨-, hwait, hempty, hexp⟩ := (I.party peer h.view hw).parked hfate
    dsimp only
    have hlen : (s.modifyHalf peer
        (fun h => { h with fate := .matchedWith s.halves.length })).halves.length
          = s.halves.length := List.length_modify _ _ _
    have hviews := views_append (s.modifyHalf peer
        (fun h => { h with fate := .matchedWith s.halves.length }))
    rw [hlen, views_modifyHalf_of_get hh] at hviews
    show DeliveryInv (ResumeState.views ⟨(s.modifyHalf peer _).halves ++ [_], _, _⟩) _
    rw [hviews]
    refine I.pairUp hnone hw hpend rfl
      ⟨rfl, rfl, hid.symm, rfl, ?_, Or.inl ⟨rfl, ⟨rfl, rfl⟩, hwait, hempty⟩⟩
    show h.expiry ≠ none
    rcases hexp with hexp | hexp
    · exact fun hnil => nomatch hnil.symm.trans hexp
    · exact fun hnil => nomatch hnil.symm.trans hexp

/-- Past the receive, a handler changes nothing that delivery depends on. -/
theorem views_handlerStep_of_past (hi : s.halves[i]? = some h)
    (hpast : h.handler.phase = .past) (hstep : s.handlerStep i h = some s') :
    s'.views = s.views ∧ s'.pending = s.pending := by
  have hview : ∀ w, s.views i = some w → w.phase = .past := by
    intro w hw
    cases (views_of_get hi).symm.trans hw
    exact hpast
  -- an update of the handler's own half that stays past the receive
  have hself : ∀ f : Half → Half, (∀ h : Half, h.handler.phase = .past → (f h).view = h.view) →
      (s.modifyHalf i f).views = s.views := fun f hf => views_of_past hview hf
  -- one of the peer's, which leaves its view, before that
  have hpeer : ∀ (p : ℕ) (f g : Half → Half), (∀ h, (g h).view = h.view) →
      (∀ h : Half, h.handler.phase = .past → (f h).view = h.view) →
      ((s.modifyHalf p g).modifyHalf i f).views = s.views := by
    intro p f g hg hf
    have hq : (s.modifyHalf p g).views = s.views := views_modifyHalf_of_eq (fun h _ => hg h)
    rw [views_of_past (fun w hw => hview w (hq ▸ hw)) hf, hq]
  have hpc : ∀ {pc : HandlerPC} {h : Half}, pc.phase = .past → h.handler.phase = .past →
      ({ h with handler := pc } : Half).view = h.view := by
    intro pc h hpc hh
    unfold Half.view
    rw [hpc, hh]
  unfold handlerStep at hstep
  cases hh : h.handler with
  | setFlags p => rw [hh] at hpast; cases hpast
  | sendPeer p => rw [hh] at hpast; cases hpast
  | sendSelf p => rw [hh] at hpast; cases hpast
  | recv => rw [hh] at hpast; cases hpast
  | returned => rw [hh] at hstep; cases hstep
  | resolve =>
    rw [hh] at hstep
    dsimp only at hstep
    split at hstep
    · split_ifs at hstep
      · split at hstep
        · cases hstep
          exact ⟨hself _ (fun h h' => hpc rfl h'), rfl⟩
        · cases hstep
          exact ⟨hself _ (fun h h' => hpc rfl h'), rfl⟩
      · cases hstep
        exact ⟨hself _ (fun h h' => hpc rfl h'), rfl⟩
    · cases hstep
      exact ⟨hself _ (fun h h' => hpc rfl h'), rfl⟩
  | waitDone =>
    rw [hh] at hstep
    dsimp only at hstep
    split at hstep
    · cases hstep
    · rcases of_afterChan hstep with ⟨b, -, rfl⟩ | hsame
      · exact ⟨hself _ (fun h h' => hpc rfl h'), rfl⟩
      · exact hsame
  | echoSelf p =>
    rw [hh] at hstep
    obtain ⟨peer, -, hstep⟩ := Option.bind_eq_some_iff.mp hstep
    cases hstep
    exact ⟨hself _ (fun h h' => hpc rfl h'), rfl⟩
  | echoPeer p =>
    rw [hh] at hstep
    cases hstep
    exact ⟨hpeer p _ _ (fun _ => rfl) (fun h h' => hpc rfl h'), rfl⟩
  | splicing p =>
    rw [hh] at hstep
    cases hstep
    exact ⟨hpeer p _ _ (fun _ => rfl) (fun h h' => hpc rfl h'), rfl⟩
  | release p =>
    rw [hh] at hstep
    obtain ⟨peer, -, hstep⟩ := Option.bind_eq_some_iff.mp hstep
    split at hstep
    · cases hstep
      exact ⟨rfl, rfl⟩
    · rcases of_afterChan hstep with ⟨b, -, rfl⟩ | hsame
      · exact ⟨hpeer p _ _ (fun _ => rfl) (fun h h' => hpc rfl h'), rfl⟩
      · exact hsame

/-- A step that changes nothing delivery depends on. -/
theorem deliveryInv_congr (I : DeliveryInv s.views s.pending)
    (h : s'.views = s.views ∧ s'.pending = s.pending) : DeliveryInv s'.views s'.pending := by
  rw [h.1, h.2]
  exact I

/-- The half that completes the pair sends itself to its peer. -/
theorem deliveryInv_sendPeer {p : ℕ} (I : DeliveryInv s.views s.pending)
    (hi : s.halves[i]? = some h) (hh : h.handler = .sendPeer p)
    (hstep : s.handlerStep i h = some s') : DeliveryInv s'.views s'.pending := by
  have hv := views_of_get hi
  unfold handlerStep at hstep
  rw [hh] at hstep
  obtain ⟨peer, hpeer, hstep⟩ := Option.bind_eq_some_iff.mp hstep
  rcases of_afterChan hstep with ⟨c, hsend, rfl⟩ | hquiet
  · have hphase : h.view.phase = .owesBoth p := by rw [Half.view, hh]; rfl
    obtain ⟨q, w', hq, hpair, hstage⟩ := I.of_owes hv (by rw [hphase]; exact nofun)
      (by rw [hphase]; exact nofun)
    rcases hstage with ⟨hph, hempty, hwait, hempty'⟩ | ⟨hph, -⟩
    · cases hphase.symm.trans hph
      cases (views_of_get hpeer).symm.trans hq
      have ⟨hf, hf', hids, hexp, hexp', _⟩ := hpair
      have hne : p ≠ i := by
        rintro rfl
        cases hi.symm.trans hpeer
        exact hexp' hexp
      have hm : peer.matched = GoChan.make 1 := hempty'.2
      rw [hm] at hsend
      cases hsend
      show DeliveryInv (modifyHalf _ i _).views s.pending
      rw [views_modifyHalf_two hne hpeer hi]
      exact I.updatePair hv (views_of_get hpeer) hpair rfl rfl
        ⟨hf, hf', hids, hexp, hexp',
          Or.inr (Or.inl ⟨rfl, hempty, Or.inl ⟨hwait, hempty'.1, rfl⟩⟩)⟩
    · exact nomatch hphase.symm.trans hph
  · exact deliveryInv_congr I hquiet

/-- It sends its peer to itself. -/
theorem deliveryInv_sendSelf {p : ℕ} (I : DeliveryInv s.views s.pending)
    (hi : s.halves[i]? = some h) (hh : h.handler = .sendSelf p)
    (hstep : s.handlerStep i h = some s') : DeliveryInv s'.views s'.pending := by
  have hv := views_of_get hi
  unfold handlerStep at hstep
  rw [hh] at hstep
  rcases of_afterChan hstep with ⟨c, hsend, rfl⟩ | hquiet
  · have hphase : h.view.phase = .owesSelf p := by rw [Half.view, hh]; rfl
    obtain ⟨q, w', hq, hpair, hstage⟩ := I.of_owes hv (by rw [hphase]; exact nofun)
      (by rw [hphase]; exact nofun)
    rcases hstage with ⟨hph, -⟩ | ⟨hph, hempty, hdel⟩
    · exact nomatch hphase.symm.trans hph
    · cases hphase.symm.trans hph
      have ⟨hf, hf', hids, hexp, hexp', _⟩ := hpair
      have hm : h.matched = GoChan.make 1 := hempty.2
      rw [hm] at hsend
      cases hsend
      show DeliveryInv (modifyHalf _ i _).views s.pending
      rw [views_modifyHalf_of_get hi]
      exact I.updateSecond hv hq hpair ⟨hf, hf', hids, hexp, hexp',
        Or.inr (Or.inr ⟨Or.inl ⟨rfl, hempty.1, rfl⟩, hdel⟩)⟩
  · exact deliveryInv_congr I hquiet

/-- A handler receives its outcome. -/
theorem deliveryInv_recv (I : DeliveryInv s.views s.pending) (hi : s.halves[i]? = some h)
    (hh : h.handler = .recv) (hstep : s.handlerStep i h = some s') :
    DeliveryInv s'.views s'.pending := by
  have hv := views_of_get hi
  unfold handlerStep at hstep
  rw [hh] at hstep
  rcases of_afterChan hstep with ⟨⟨o, c⟩, hrecv, rfl⟩ | hquiet
  · show DeliveryInv (modifyHalf _ i _).views s.pending
    rw [views_modifyHalf_of_get hi]
    rcases I.of_receivable hv hrecv with
      ⟨hf, rfl, rfl, hexp⟩ | ⟨p, w', hp, hf, rfl, rfl, hd, -, hpair⟩
    · obtain ⟨-, -, hm, -⟩ := (I.party i h.view hv).expired hf
      exact I.updateExpired hv hf rfl hf ⟨hexp, hm, Or.inr ⟨rfl, rfl⟩⟩
    · have hu : ({ h with matched := GoChan.make 1, got := some (some p), handler := .resolve }
          : Half).view.Delivered p := Or.inr ⟨rfl, rfl, rfl⟩
      exact I.update_half hv hp hpair (fun h => h.took_left hd rfl rfl rfl hu)
        (fun h => h.took_right hd rfl rfl rfl hu)
  · exact deliveryInv_congr I hquiet

/-- **A step of a handler keeps the invariant.** -/
theorem deliveryInv_handler (I : DeliveryInv s.views s.pending) (hi : s.halves[i]? = some h)
    (hstep : s.handlerStep i h = some s') : DeliveryInv s'.views s'.pending := by
  by_cases hpast : h.handler.phase = .past
  · exact deliveryInv_congr I (views_handlerStep_of_past hi hpast hstep)
  cases hh : h.handler with
  | setFlags p =>
    unfold handlerStep at hstep
    rw [hh] at hstep
    cases hstep
    refine deliveryInv_congr I ⟨?_, rfl⟩
    refine (views_modifyHalf_of_eq ?_).trans (views_modifyHalf_of_eq ?_)
    · exact fun _ _ => rfl
    · intro h' hi'
      cases hi.symm.trans hi'
      unfold Half.view
      rw [hh]
      rfl
  | sendPeer p => exact deliveryInv_sendPeer I hi hh hstep
  | sendSelf p => exact deliveryInv_sendSelf I hi hh hstep
  | recv => exact deliveryInv_recv I hi hh hstep
  | _ => rw [hh] at hpast; exact absurd rfl hpast

/-- The half whose expiry goroutine has not exited is parked, or it is the
parked half of a pair. -/
theorem parked_of_expiry (I : DeliveryInv s.views s.pending) (hi : s.halves[i]? = some h)
    {x : ExpiryPC} (hx : h.expiry = some x) (hne : x ≠ .exited) :
    (h.fate = .parked ∧ h.view.phase = .waiting ∧ h.view.Empty ∧ s.pending.get h.id = some i)
    ∨ ∃ p w', s.views p = some w' ∧ h.fate = .matchedWith p ∧ s.pending.get h.id ≠ some i
      ∧ HalfView.Paired p i w' h.view := by
  have hok := I.party i h.view (views_of_get hi)
  cases hf : h.fate with
  | parked =>
    obtain ⟨hpend, hwait, hempty, -⟩ := hok.parked hf
    exact Or.inl ⟨rfl, hwait, hempty, hpend⟩
  | expired =>
    cases hx.symm.trans (hok.expired hf).2.1
    exact absurd rfl hne
  | matchedWith p =>
    obtain ⟨hleft, w', hw', hpair | hpair⟩ := hok.matched hf
    · exact nomatch hx.symm.trans hpair.2.2.2.1
    · exact Or.inr ⟨p, w', hw', rfl, hleft, hpair⟩

/-- Moving the expiry goroutine of a half keeps the invariant, as long as a
parked half keeps it. -/
theorem deliveryInv_expiry (I : DeliveryInv s.views s.pending) (hi : s.halves[i]? = some h)
    {x y : ExpiryPC} (hx : h.expiry = some x) (hne : x ≠ .exited)
    (hy : h.fate = .parked → y = .fired) :
    DeliveryInv (s.modifyHalf i (fun h => { h with expiry := some y })).views s.pending := by
  have hv := views_of_get hi
  rw [views_modifyHalf_of_get hi]
  rcases parked_of_expiry I hi hx hne with ⟨hf, hwait, hempty, hpend⟩ | ⟨p, w', hp, hf, -, hpair⟩
  · exact I.updateParked hv hf rfl hf ⟨hwait, hempty, Or.inr (congrArg some (hy hf))⟩
  · exact I.updateFirst hp hv hpair (hpair.expiry_right y)

/-- **The expiry of a half keeps the invariant.** -/
theorem deliveryInv_expire (I : DeliveryInv s.views s.pending) (hi : s.halves[i]? = some h)
    (hstep : s.expire i h = some s') : DeliveryInv s'.views s'.pending := by
  have hv := views_of_get hi
  unfold expire at hstep
  split_ifs at hstep with hfired hpend
  · rcases of_afterChan hstep with ⟨c, hclose, rfl⟩ | ⟨hviews, hpending⟩
    · rcases parked_of_expiry I hi hfired (by decide) with
        ⟨hf, hwait, hempty, -⟩ | ⟨p, w', -, -, hleft, -⟩
      · have hm : h.matched = GoChan.make 1 := hempty.2
        rw [hm] at hclose
        cases hclose
        show DeliveryInv (modifyHalf _ i _).views (s.pending.del h.id)
        rw [views_modifyHalf_of_get hi]
        exact I.discard hv hpend rfl rfl ⟨rfl, rfl, Or.inl ⟨hwait, hempty.1⟩⟩
      · exact absurd hpend hleft
    · rw [hviews, hpending]
      exact I
  · cases hstep
    refine deliveryInv_expiry I hi hfired (by decide) (fun hf => ?_)
    rcases parked_of_expiry I hi hfired (by decide) with ⟨-, -, -, h⟩ | ⟨p, w', -, hf', -⟩
    · exact absurd h hpend
    · exact nomatch hf.symm.trans hf'

/-- The expiry goroutine does not receive in this step. -/
def NoSteal (_ : ResumeState) : ResumeEvent → Prop
  | .expiryRecv _ => False
  | _ => True

/-- **Every step but a receive of the expiry goroutine keeps the invariant.** -/
theorem deliveryInv_step {e : ResumeEvent} (I : DeliveryInv s.views s.pending)
    (he : NoSteal s e) (hstep : s.step e = some s') : DeliveryInv s'.views s'.pending := by
  unfold step at hstep
  split_ifs at hstep
  cases e with
  | submit kind id uri myPosition peerAckPosition =>
    cases hstep
    exact deliveryInv_submit I kind id uri myPosition peerAckPosition
  | handler i =>
    obtain ⟨h, hi, hstep⟩ := Option.bind_eq_some_iff.mp hstep
    exact deliveryInv_handler I hi hstep
  | expiryRecv i => exact he.elim
  | timerFire i =>
    obtain ⟨h, hi, hstep⟩ := Option.bind_eq_some_iff.mp hstep
    unfold timerFire at hstep
    split_ifs at hstep with hsel
    cases hstep
    exact deliveryInv_expiry I hi hsel (by decide) (fun _ => rfl)
  | expire i =>
    obtain ⟨h, hi, hstep⟩ := Option.bind_eq_some_iff.mp hstep
    exact deliveryInv_expire I hi hstep

/-- Under the invariant nothing is lost. -/
theorem noneLost_of_deliveryInv (I : DeliveryInv s.views s.pending) : s.NoneLost := by
  intro i h hi hleft howed
  have hv := views_of_get hi
  -- nothing is owed to a half that has been told its peer
  have hdel : ∀ {p}, h.fate = .matchedWith p → h.view.Delivered p →
      h.got = some h.outcome ∨ (h.got = none ∧ h.matched.Receivable h.outcome) := by
    intro p hf hd
    have hout : h.outcome = some p := by unfold Half.outcome; rw [hf]
    rw [hout]
    rcases hd with ⟨-, hgot, hm⟩ | ⟨-, hgot, -⟩
    · refine Or.inr ⟨hgot, GoChan.make 1, ?_⟩
      rw [show h.matched = _ from hm]
      rfl
    · exact Or.inl hgot
  have hok := I.party i h.view hv
  cases hf : h.fate with
  | parked => exact absurd (hok.parked hf).1 hleft
  | expired =>
    obtain ⟨-, -, hm, hgot⟩ := hok.expired hf
    have hout : h.outcome = none := by unfold Half.outcome; rw [hf]
    rw [hout]
    rcases hgot with ⟨-, hgot⟩ | ⟨-, hgot⟩
    · refine Or.inr ⟨hgot, h.matched, ?_⟩
      rw [show h.matched = _ from hm]
      rfl
    · exact Or.inl hgot
  | matchedWith p =>
    obtain ⟨-, w', hw', hpair⟩ := hok.matched hf
    refine hdel hf ?_
    obtain ⟨h', hi', rfl⟩ := get_of_views hw'
    rcases hpair with ⟨-, -, -, -, -, hs | hs | hs⟩ | ⟨-, -, -, -, -, hs | hs | hs⟩
    · exact absurd (Or.inl ⟨h, p, hi, (HandlerPC.phase_eq_owesBoth.mp hs.1).imp_right Or.inl⟩) howed
    · exact absurd (Or.inl ⟨h, p, hi, Or.inr (Or.inr (HandlerPC.phase_eq_owesSelf.mp hs.1))⟩) howed
    · exact hs.1
    · exact absurd (Or.inr ⟨p, h', hi', HandlerPC.phase_eq_owesBoth.mp hs.1⟩) howed
    · exact hs.2.2
    · exact hs.2

/-- Nothing is owed any more to a half that was told its peer. -/
theorem not_sendOwed_of_delivered (I : DeliveryInv s.views s.pending)
    (hi : s.halves[i]? = some h) {p : ℕ} (hd : h.view.Delivered p) : ¬ s.SendOwed i := by
  rintro (⟨h₁, q, hi₁, hpc⟩ | ⟨j, h₁, hj, hpc⟩)
  · cases hi.symm.trans hi₁
    have hphase : h.view.phase = .owesBoth q ∨ h.view.phase = .owesSelf q := by
      rcases hpc with hpc | hpc | hpc
      · exact Or.inl (HandlerPC.phase_eq_owesBoth.mpr (Or.inl hpc))
      · exact Or.inl (HandlerPC.phase_eq_owesBoth.mpr (Or.inr hpc))
      · exact Or.inr (HandlerPC.phase_eq_owesSelf.mpr hpc)
    rcases hd with ⟨hwait, -⟩ | ⟨hpast, -⟩
    · rcases hphase with h' | h' <;> exact nomatch hwait.symm.trans h'
    · rcases hphase with h' | h' <;> exact nomatch hpast.symm.trans h'
  · have hphase : h₁.view.phase = .owesBoth i := HandlerPC.phase_eq_owesBoth.mpr hpc
    obtain ⟨q, w', hq, -, hstage⟩ := I.of_owes (views_of_get hj)
      (fun h' => nomatch hphase.symm.trans h') (fun h' => nomatch hphase.symm.trans h')
    rcases hstage with ⟨hph, -, hwait, hempty⟩ | ⟨hph, -⟩
    · cases hphase.symm.trans hph
      cases (views_of_get hi).symm.trans hq
      rcases hd with ⟨-, -, hm⟩ | ⟨hpast, -⟩
      · cases hempty.2.symm.trans hm
      · exact nomatch hwait.symm.trans hpast
    · exact nomatch hphase.symm.trans hph

/-- What is owed depends on where the handlers are. -/
theorem SendOwed.of_modifyHalf {f : Half → Half} {j : ℕ} (hf : ∀ h, (f h).handler = h.handler)
    (ho : (s.modifyHalf j f).SendOwed i) : s.SendOwed i := by
  have hget : ∀ {k : ℕ} {h' : Half}, (s.modifyHalf j f).halves[k]? = some h' →
      ∃ h, s.halves[k]? = some h ∧ h'.handler = h.handler := by
    intro k h' hk
    unfold modifyHalf at hk
    rw [List.getElem?_modify] at hk
    obtain ⟨h, hh, rfl⟩ := Option.map_eq_some_iff.mp hk
    refine ⟨h, hh, ?_⟩
    split_ifs
    · exact hf h
    · rfl
  rcases ho with ⟨h', p, hi, hpc⟩ | ⟨k, h', hk, hpc⟩
  · obtain ⟨h, hh, heq⟩ := hget hi
    exact Or.inl ⟨h, p, hh, heq ▸ hpc⟩
  · obtain ⟨h, hh, heq⟩ := hget hk
    exact Or.inr ⟨k, h, hh, heq ▸ hpc⟩

/-- **A receive of the expiry goroutine loses a delivery.** -/
theorem not_noneLost_of_steal (I : DeliveryInv s.views s.pending) {e : ResumeEvent}
    (he : ¬ NoSteal s e) (hstep : s.step e = some s') : ¬ s'.NoneLost := by
  unfold step at hstep
  split_ifs at hstep
  cases e with
  | expiryRecv i =>
    obtain ⟨h, hi, hstep⟩ := Option.bind_eq_some_iff.mp hstep
    unfold expiryRecv at hstep
    split_ifs at hstep with hsel
    obtain ⟨⟨o, c⟩, hrecv, rfl⟩ := GoChan.of_recv_andThen hstep
    -- the half holds its peer, and its handler has not received
    rcases parked_of_expiry I hi hsel (by decide) with
      ⟨-, -, hempty, -⟩ | ⟨p, w', hp, hf, hleft, hpair⟩
    · rw [show h.matched = _ from hempty.2] at hrecv
      cases hrecv
    rcases I.of_receivable (views_of_get hi) hrecv with
      ⟨hf', -⟩ | ⟨q, -, -, -, -, rfl, hd, hgot, -⟩
    · exact nomatch hf.symm.trans hf'
    have hget : (s.modifyHalf i (fun h => { h with
        matched := GoChan.make 1, expiry := some .exited })).halves[i]?
          = some { h with matched := GoChan.make 1, expiry := some .exited } := by
      unfold modifyHalf
      rw [List.getElem?_modify_eq, hi]
      rfl
    intro hlost
    have hout := hlost i _ hget hleft fun howed =>
      not_sendOwed_of_delivered I hi hd (SendOwed.of_modifyHalf (fun _ => by rfl) howed)
    rcases hout with hnow | ⟨-, c, hc⟩
    · exact nomatch hgot.symm.trans hnow
    · cases hc
  | _ => exact absurd trivial he

/-- The invariant holds before any half has been submitted. -/
theorem deliveryInv_init : DeliveryInv resumeMachine.init.views resumeMachine.init.pending :=
  deliveryProtocol.inv_empty

end ResumeState

/-- **When no delivery is lost.** In a run of the matcher, every half that has
left `pending` and is owed nothing has its outcome, in every state, exactly
when the expiry goroutine of no half ever receives from its channel. -/
theorem noneLost_iff_noSteal {h : List (Transition ResumeState ResumeEvent)} {s : ResumeState}
    (hx : resumeMachine.Exec h s) :
    Machine.Throughout ResumeState.NoneLost h s
      ↔ ∀ t ∈ h, ResumeState.NoSteal t.pre t.ev := by
  refine hx.throughout_iff (I := fun s => DeliveryInv s.views s.pending)
    ResumeState.deliveryInv_init ResumeState.noneLost_of_deliveryInv ?_ ?_
  · exact fun _ I he hstep => ResumeState.deliveryInv_step I he hstep
  · exact fun _ I he hstep => ResumeState.not_noneLost_of_steal I he hstep

/-- Two halves of one stream, and the two flags and the first send of the
second. -/
def twoHalves : List ResumeEvent :=
  [.submit .resume 7 (go "c1") 100 50, .submit .resume 7 (go "p1") 50 100, .handler 1, .handler 1]

/-- The expiry goroutine of the first half takes the peer that was sent to it.
The half is out of `pending`, its channel is empty and open, nothing is owed to
it, and its handler waits. -/
theorem matched_half_left_waiting :
    ∃ s, resumeMachine.Reachable s ∧ ¬ s.NoneLost ∧ ∃ h, s.halves[0]? = some h
      ∧ h.fate = .matchedWith 1 ∧ h.handler = .recv ∧ h.matched = GoChan.make 1
      ∧ s.pending.get 7 = none := by
  obtain ⟨s, hrun, hnext⟩ : ∃ s, resumeMachine.run twoHalves resumeMachine.init = some s
      ∧ ∃ s', resumeMachine.step s (.expiryRecv 0) = some s' ∧ ∃ h, s'.halves[0]? = some h
        ∧ h.fate = .matchedWith 1 ∧ h.handler = .recv ∧ h.matched = GoChan.make 1
        ∧ s'.pending.get 7 = none :=
    ⟨_, rfl, _, rfl, _, rfl, rfl, rfl, rfl, rfl⟩
  obtain ⟨s', hstep, hhalf⟩ := hnext
  obtain ⟨h, hx, hev⟩ := Machine.exec_of_run _ _ hrun
  have hgood : ∀ t ∈ h, ResumeState.NoSteal t.pre t.ev := by
    intro t ht
    have hmem : t.ev ∈ twoHalves := hev ▸ List.mem_map_of_mem ht
    unfold twoHalves at hmem
    generalize t.ev = e at hmem
    cases e with
    | expiryRecv i => simp at hmem
    | _ => trivial
  have hI := (hx.invariant_of_guard (I := fun s => DeliveryInv s.views s.pending)
    ResumeState.deliveryInv_init
    (fun _ I he hstep => ResumeState.deliveryInv_step I he hstep) hgood).1
  have hlost := ResumeState.not_noneLost_of_steal (e := .expiryRecv 0) hI id hstep
  exact ⟨s', ⟨_, .snoc hx hstep⟩, hlost, hhalf⟩

/-- With no such receive both handlers get their peers. -/
theorem both_halves_delivered :
    ∃ (h : List (Transition ResumeState ResumeEvent)) (s : ResumeState),
      resumeMachine.Exec h s ∧ Machine.Throughout ResumeState.NoneLost h s
        ∧ s.halves.map Half.got = [some (some 1), some (some 0)] := by
  obtain ⟨s, hrun, hgot⟩ : ∃ s, resumeMachine.run
      (twoHalves ++ [.handler 1, .handler 1, .handler 0]) resumeMachine.init = some s
      ∧ s.halves.map Half.got = [some (some 1), some (some 0)] := ⟨_, rfl, rfl⟩
  obtain ⟨h, hx, hev⟩ := Machine.exec_of_run _ _ hrun
  refine ⟨h, s, hx, (noneLost_iff_noSteal hx).mpr ?_, hgot⟩
  intro t ht
  have hmem := List.mem_map_of_mem (f := Transition.ev) ht
  rw [hev] at hmem
  unfold twoHalves at hmem
  generalize t.ev = e at hmem
  cases e with
  | expiryRecv i => simp at hmem
  | _ => trivial
