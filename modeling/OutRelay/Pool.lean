import OutRelay.Frames
import OutRelay.GoMap
import OutRelay.GoString
import OutRelay.PoolCalls
import OutRelay.Run

/-!
# The pool of peer connections

A stream whose provider is on another relay is forwarded over a connection to
that relay. There is one connection per peer, in `Pool`, and every forwarded
stream to the peer is a stream of it: closing the connection ends them all.

A forwarded `OPEN_STREAM` runs `forwardToPeer`. It gets the connection
(`Pool.Get`), has `ForwardStream` open a stream on it, write `FORWARD_STREAM`
and read the reply, and splices. Where `ForwardStream` returns an error it
calls `Pool.Drop`, which closes *whatever connection is now in the pool* under
the peer's relay id.

`Pool.Get` is a lookup, a dial outside the lock, and an installation. The
machine below takes these steps, the exchange of `ForwardStream` and the drop
of any number of forwarded streams in any order. A connection carries three
marks that are not in the source: who closed it, whether a stream was ever
asked of it (`used`), and whether the open of a stream or the transport of an
exchange has failed on it (`failed`).

`Drop` goes by the relay id, and is called on every error. So what keeps a connection
from being closed under the streams it carries is not the pool but the run: that every
`Drop` follows an error of the transport and finds its own connection, or none
(`isolated_of_ownDrop`). The calls to `Get` and `Drop` are those of `PoolCalls`, and
every run here is one there (`simulated_of_reachable`).
-/

/-- The errors of `ForwardStream`, in the order in which it returns them. -/
inductive ForwardError
  | openPeerStream (err : GoString)
  | writeForwardStream (err : GoString)
  | readPeerReply (err : GoString)
  | peerRejected (code : UInt32) (reason : GoString)
  | unexpectedFrame (frameType : FrameType)
  deriving DecidableEq

/-- The error is one of the connection: the stream could not be opened, or the
exchange on it could not be carried out. In the other two the peer replied. -/
def ForwardError.transport : ForwardError → Bool
  | .openPeerStream _ | .writeForwardStream _ | .readPeerReply _ => true
  | .peerRejected _ _ | .unexpectedFrame _ => false

/-- Who closed a connection: `Drop`, a `Get` whose dial came second, or
`Close`. -/
inductive CloseCause
  | dropped
  | lostRace
  | poolClosed
  deriving DecidableEq

/-- A connection to a peer relay. -/
structure PeerConn where
  endpoint : GoString
  closes : List CloseCause
  used : Bool
  failed : Bool
  deriving DecidableEq

/-- No stream was ever asked of the connection, so none has failed on it. -/
def PeerConn.Fresh (l : PeerConn) : Prop := l.used = false ∧ l.failed = false

/-- Where a `forwardToPeer` is: in `Get` (the first three), at
`ForwardStream`, at the `Drop` after its error, splicing, or done. -/
inductive ForwardPC
  | lookup
  | dial
  | install (c : ℕ)
  | forward (c : ℕ)
  | drop (c : ℕ) (err : ForwardError)
  | splice (c : ℕ)
  | returned
  deriving DecidableEq

/-- The connection a forwarded stream works on. -/
def ForwardPC.conn : ForwardPC → Option ℕ
  | .install c | .forward c | .drop c _ | .splice c => some c
  | .lookup | .dial | .returned => none

/-- A forwarded stream, to the relay the controller named. -/
structure ForwardCall where
  relayID : GoString
  endpoint : GoString
  pc : ForwardPC
  deriving DecidableEq

/-- `Pool.conns`, the connections that have been dialed and the forwarded
streams. -/
structure PoolState where
  conns : GoMap GoString ℕ
  links : List PeerConn
  calls : List ForwardCall

/-- A step of one `forwardToPeer`, with what the network answers. -/
inductive CallEvent
  | lookup
  | dial (ok : Bool)
  | install
  | forward (result : Except ForwardError Unit)
  | drop
  | finish

/-- A new forwarded stream, a step of one of them, or `Close`, which visits
the connections in the given order. -/
inductive PoolEvent
  | start (relayID endpoint : GoString)
  | call (k : ℕ) (e : CallEvent)
  | close (order : List (GoString × ℕ))

namespace PoolState

/-- Update the connection `c`. -/
def modifyLink (s : PoolState) (c : ℕ) (f : PeerConn → PeerConn) : PoolState :=
  { s with links := s.links.modify c f }

/-- `c.Close()`. -/
def closeLink (s : PoolState) (c : ℕ) (cause : CloseCause) : PoolState :=
  s.modifyLink c (fun l => { l with closes := l.closes ++ [cause] })

/-- Move the forwarded stream `k` on. -/
def goto (s : PoolState) (k : ℕ) (pc : ForwardPC) : PoolState :=
  { s with calls := s.calls.modify k (fun call => { call with pc := pc }) }

/-- The loop of `Close`. -/
def closeAll (s : PoolState) (order : List (GoString × ℕ)) : PoolState :=
  order.foldl (fun s e => { s.closeLink e.snd .poolClosed with conns := s.conns.del e.fst }) s

/-- A step of the forwarded stream `k`. -/
def callStep (s : PoolState) (k : ℕ) (call : ForwardCall) (e : CallEvent) : Option PoolState :=
  match call.pc, e with
  | .lookup, .lookup =>
    match s.conns.get call.relayID with
    | some c => some (s.goto k (.forward c))
    | none => some (s.goto k .dial)
  | .dial, .dial false => some (s.goto k .returned)
  | .dial, .dial true =>
    some (({ s with links := s.links ++ [⟨call.endpoint, [], false, false⟩] } : PoolState).goto k
      (.install s.links.length))
  | .install c, .install =>
    match s.conns.get call.relayID with
    | some existing => some ((s.closeLink c .lostRace).goto k (.forward existing))
    | none =>
      some (({ s with conns := s.conns.set call.relayID c } : PoolState).goto k (.forward c))
  | .forward c, .forward (.ok ()) =>
    some ((s.modifyLink c (fun l => { l with used := true })).goto k (.splice c))
  | .forward c, .forward (.error err) =>
    some ((s.modifyLink c (fun l =>
      { l with used := true, failed := l.failed || err.transport })).goto k (.drop c err))
  | .drop _ _, .drop =>
    match s.conns.get call.relayID with
    | some c =>
      some ((({ s with conns := s.conns.del call.relayID } : PoolState).closeLink c .dropped).goto k
        .returned)
    | none => some (s.goto k .returned)
  | .splice _, .finish => some (s.goto k .returned)
  | _, _ => none

def step (s : PoolState) : PoolEvent → Option PoolState
  | .start relayID endpoint => some { s with calls := s.calls ++ [⟨relayID, endpoint, .lookup⟩] }
  | .call k e => (s.calls[k]?).bind (fun call => s.callStep k call e)
  | .close order => if s.conns.RangeOrder order then some (s.closeAll order) else none

end PoolState

/-- The pool from the start of the relay. -/
def poolMachine : Machine PoolState PoolEvent where
  init := { conns := ∅, links := [], calls := [] }
  step := PoolState.step

namespace PoolState

/-! ## Isolation -/

/-- The connection `c` has failed. -/
def Failed (s : PoolState) (c : ℕ) : Prop := ∃ l, s.links[c]? = some l ∧ l.failed = true

/-- **Isolation**: a connection that the pool has closed, other than through
`Close`, has failed. -/
def Isolated (s : PoolState) : Prop :=
  ∀ (c : ℕ) (l : PeerConn), s.links[c]? = some l →
    ∀ cause ∈ l.closes, cause ≠ .poolClosed → l.failed = true

/-- Isolation of the connections that were in use: a connection that `Drop`
has closed has failed. -/
def DropsIsolated (s : PoolState) : Prop :=
  ∀ (c : ℕ) (l : PeerConn), s.links[c]? = some l → .dropped ∈ l.closes → l.failed = true

/-- No stream was ever asked of a connection that lost the race of two
dials. -/
def RacesIdle (s : PoolState) : Prop :=
  ∀ (c : ℕ) (l : PeerConn), s.links[c]? = some l → .lostRace ∈ l.closes → l.used = false

/-- The step is a `Drop`, and finds `c` in the pool. -/
def Drops (s : PoolState) (e : PoolEvent) (c : ℕ) : Prop :=
  ∃ k call c₀ err, e = .call k .drop ∧ s.calls[k]? = some call ∧ call.pc = .drop c₀ err
    ∧ s.conns.get call.relayID = some c

/-- The step is the installation of `c`, and finds another connection
installed. -/
def LosesRace (s : PoolState) (e : PoolEvent) (c : ℕ) : Prop :=
  ∃ k call existing, e = .call k .install ∧ s.calls[k]? = some call ∧ call.pc = .install c
    ∧ s.conns.get call.relayID = some existing

/-- **A sound drop** finds nothing, or a connection on which the open of a stream or
the transport of an exchange has failed, of this stream or of another. -/
def SoundDrop (s : PoolState) (e : PoolEvent) : Prop := ∀ c, s.Drops e c → s.Failed c

/-- **A drop of one's own**: `ForwardStream` has returned an error of the transport, and
the pool holds the connection it was returned for, or none. -/
def OwnDrop (s : PoolState) (e : PoolEvent) : Prop :=
  ∀ k call c err, e = .call k .drop → s.calls[k]? = some call → call.pc = .drop c err →
    err.transport = true ∧ ∀ c', s.conns.get call.relayID = some c' → c' = c

/-- No dial comes second. -/
def NoRace (s : PoolState) (e : PoolEvent) : Prop := ∀ c, ¬ s.LosesRace e c

/-! ## What a step does -/

variable {s s' : PoolState} {e : PoolEvent} {k k' c c' : ℕ} {call call' : ForwardCall}
  {l l' : PeerConn}

/-- **The steps of a forwarded stream**, by where it is and what it finds. -/
inductive Acts (s : PoolState) (k : ℕ) (call : ForwardCall) : CallEvent → PoolState → Prop
  | hit {c : ℕ} : call.pc = .lookup → s.conns.get call.relayID = some c →
      Acts s k call .lookup (s.goto k (.forward c))
  | miss : call.pc = .lookup → s.conns.get call.relayID = none →
      Acts s k call .lookup (s.goto k .dial)
  | unreachable : call.pc = .dial → Acts s k call (.dial false) (s.goto k .returned)
  | dialed : call.pc = .dial →
      Acts s k call (.dial true)
        (({ s with links := s.links ++ [⟨call.endpoint, [], false, false⟩] } : PoolState).goto k
          (.install s.links.length))
  | lostRace {c existing : ℕ} : call.pc = .install c →
      s.conns.get call.relayID = some existing →
      Acts s k call .install ((s.closeLink c .lostRace).goto k (.forward existing))
  | installed {c : ℕ} : call.pc = .install c → s.conns.get call.relayID = none →
      Acts s k call .install
        (({ s with conns := s.conns.set call.relayID c } : PoolState).goto k (.forward c))
  | accepted {c : ℕ} : call.pc = .forward c →
      Acts s k call (.forward (.ok ()))
        ((s.modifyLink c (fun l => { l with used := true })).goto k (.splice c))
  | refused {c : ℕ} {err : ForwardError} : call.pc = .forward c →
      Acts s k call (.forward (.error err))
        ((s.modifyLink c (fun l =>
          { l with used := true, failed := l.failed || err.transport })).goto k (.drop c err))
  | dropped {c₀ c : ℕ} {err : ForwardError} : call.pc = .drop c₀ err →
      s.conns.get call.relayID = some c →
      Acts s k call .drop
        ((({ s with conns := s.conns.del call.relayID } : PoolState).closeLink c .dropped).goto k
          .returned)
  | nothingToDrop {c₀ : ℕ} {err : ForwardError} : call.pc = .drop c₀ err →
      s.conns.get call.relayID = none → Acts s k call .drop (s.goto k .returned)
  | finished {c : ℕ} : call.pc = .splice c → Acts s k call .finish (s.goto k .returned)

theorem acts_of_callStep {e : CallEvent} (h : s.callStep k call e = some s') :
    s.Acts k call e s' := by
  unfold callStep at h
  split at h
  case h_1 hpc =>
    split at h <;> cases h
    · exact .hit hpc ‹_›
    · exact .miss hpc ‹_›
  case h_2 hpc => cases h; exact .unreachable hpc
  case h_3 hpc => cases h; exact .dialed hpc
  case h_4 hpc =>
    split at h <;> cases h
    · exact .lostRace hpc ‹_›
    · exact .installed hpc ‹_›
  case h_5 hpc => cases h; exact .accepted hpc
  case h_6 hpc => cases h; exact .refused hpc
  case h_7 hpc =>
    split at h <;> cases h
    · exact .dropped hpc ‹_›
    · exact .nothingToDrop hpc ‹_›
  case h_8 hpc => cases h; exact .finished hpc
  case h_9 => cases h

/-- The steps of the pool: a new stream, a step of one, or `Close`. -/
theorem step_cases (h : s.step e = some s') :
    (∃ relayID endpoint, e = .start relayID endpoint
        ∧ s' = { s with calls := s.calls ++ [⟨relayID, endpoint, .lookup⟩] })
      ∨ (∃ k call e', e = .call k e' ∧ s.calls[k]? = some call ∧ s.Acts k call e' s')
      ∨ (∃ order, e = .close order ∧ s.conns.RangeOrder order ∧ s' = s.closeAll order) := by
  cases e with
  | start relayID endpoint =>
    cases h
    exact Or.inl ⟨_, _, rfl, rfl⟩
  | call k e' =>
    obtain ⟨call, hk, h⟩ := Option.bind_eq_some_iff.mp h
    exact Or.inr (Or.inl ⟨k, call, e', rfl, hk, acts_of_callStep h⟩)
  | close order =>
    simp only [step] at h
    split_ifs at h with horder
    cases h
    exact Or.inr (Or.inr ⟨order, rfl, horder, rfl⟩)

/-- A connection after the update of one. -/
theorem links_modifyLink {d : ℕ} {f : PeerConn → PeerConn} (hl : s.links[c]? = some l) :
    (s.modifyLink d f).links[c]? = some (if d = c then f l else l) := by
  unfold modifyLink
  rw [List.getElem?_modify, hl]
  rfl

/-- The forwarded streams after one has moved on. -/
theorem of_getElem?_modify {calls : List ForwardCall} {p : ForwardPC}
    (h : (calls.modify k (fun call => { call with pc := p }))[k']? = some call') :
    ∃ call, calls[k']? = some call
      ∧ ((k' = k ∧ call' = { call with pc := p }) ∨ (k' ≠ k ∧ call' = call)) := by
  rw [List.getElem?_modify] at h
  obtain ⟨call, hc, rfl⟩ := Option.map_eq_some_iff.mp h
  refine ⟨call, hc, ?_⟩
  by_cases hk : k' = k
  · exact Or.inl ⟨hk, if_pos hk.symm⟩
  · exact Or.inr ⟨hk, if_neg (Ne.symm hk)⟩

theorem calls_goto {p : ForwardPC} (h : (s.goto k p).calls[k']? = some call') :
    ∃ call, s.calls[k']? = some call
      ∧ ((k' = k ∧ call' = { call with pc := p }) ∨ (k' ≠ k ∧ call' = call)) :=
  of_getElem?_modify h

/-- `Close` deletes the rows it visits, and marks their connections. -/
theorem closeAll_spec (order : List (GoString × ℕ)) (s : PoolState) :
    (s.closeAll order).calls = s.calls
      ∧ (s.closeAll order).conns = s.conns.delAll (order.map Prod.fst)
      ∧ (s.closeAll order).links.length = s.links.length
      ∧ ∀ (c : ℕ) (l : PeerConn), s.links[c]? = some l →
          ∃ n, (s.closeAll order).links[c]?
            = some ({ l with closes := l.closes ++ List.replicate n .poolClosed } : PeerConn) := by
  induction order generalizing s with
  | nil => exact ⟨rfl, rfl, rfl, fun c l hl => ⟨0, by simpa [closeAll] using hl⟩⟩
  | cons x order ih =>
    obtain ⟨hcalls, hconns, hlen, hlinks⟩ :=
      ih { s.closeLink x.snd .poolClosed with conns := s.conns.del x.fst }
    refine ⟨hcalls, hconns, hlen.trans (List.length_modify _ _ _), fun c l hl => ?_⟩
    have hone := links_modifyLink (d := x.snd)
      (f := fun l => { l with closes := l.closes ++ [.poolClosed] }) hl
    obtain ⟨n, hn⟩ := hlinks c _ hone
    by_cases hc : x.snd = c
    · refine ⟨n + 1, hn.trans ?_⟩
      rw [if_pos hc, List.replicate_succ, List.append_assoc]
      rfl
    · refine ⟨n, hn.trans ?_⟩
      rw [if_neg hc]

/-- **What a step does to a connection.** It stays, and what has failed has
failed; it is closed only by `Close`, by the race it loses or by the `Drop`
that finds it; and it is fresh until a stream forwards on it. -/
structure LinkChange (s : PoolState) (e : PoolEvent) (c : ℕ) (l l' : PeerConn) : Prop where
  failed : l.failed = true → l'.failed = true
  closes : ∀ cause ∈ l'.closes, cause ∈ l.closes ∨ cause = .poolClosed
    ∨ (cause = .lostRace ∧ s.LosesRace e c) ∨ (cause = .dropped ∧ s.Drops e c)
  fresh : l.Fresh → l'.Fresh
    ∨ ∃ k call r, e = .call k (.forward r) ∧ s.calls[k]? = some call ∧ call.pc = .forward c

theorem LinkChange.refl : LinkChange s e c l l :=
  ⟨id, fun _ h => Or.inl h, Or.inl⟩

/-- One more cause. -/
theorem LinkChange.close {cause : CloseCause} (h : cause = .poolClosed
      ∨ (cause = .lostRace ∧ s.LosesRace e c) ∨ (cause = .dropped ∧ s.Drops e c)) :
    LinkChange s e c l { l with closes := l.closes ++ [cause] } := by
  refine ⟨id, fun x hx => ?_, Or.inl⟩
  rcases List.mem_append.mp hx with hx | hx
  · exact Or.inl hx
  · cases List.mem_singleton.mp hx
    exact Or.inr h

theorem linkChange_of_acts {e : CallEvent} (hk : s.calls[k]? = some call)
    (h : s.Acts k call e s') (hl : s.links[c]? = some l) :
    ∃ l', s'.links[c]? = some l' ∧ LinkChange s (.call k e) c l l' := by
  cases h with
  | hit hpc hget => exact ⟨l, hl, .refl⟩
  | miss hpc hget => exact ⟨l, hl, .refl⟩
  | unreachable hpc => exact ⟨l, hl, .refl⟩
  | dialed hpc =>
    refine ⟨l, ?_, .refl⟩
    exact (List.getElem?_append_left (List.getElem?_eq_some_iff.mp hl).1).trans hl
  | @lostRace c₁ existing hpc hget =>
    refine ⟨_, links_modifyLink hl, ?_⟩
    split_ifs with hc
    · exact .close (Or.inr (Or.inl ⟨rfl, k, call, existing, rfl, hk, hc ▸ hpc, hget⟩))
    · exact .refl
  | installed hpc hget => exact ⟨l, hl, .refl⟩
  | accepted hpc =>
    refine ⟨_, links_modifyLink hl, ?_⟩
    split_ifs with hc
    · exact ⟨id, fun _ hx => Or.inl hx, fun _ => Or.inr ⟨k, call, _, rfl, hk, hc ▸ hpc⟩⟩
    · exact .refl
  | refused hpc =>
    refine ⟨_, links_modifyLink hl, ?_⟩
    split_ifs with hc
    · refine ⟨fun hf => ?_, fun _ hx => Or.inl hx, fun _ => Or.inr ⟨k, call, _, rfl, hk, hc ▸ hpc⟩⟩
      show (l.failed || _) = true
      rw [hf, Bool.true_or]
    · exact .refl
  | @dropped c₀ c₁ err hpc hget =>
    refine ⟨_, links_modifyLink hl, ?_⟩
    split_ifs with hc
    · exact .close (Or.inr (Or.inr ⟨rfl, k, call, c₀, err, rfl, hk, hpc, hc ▸ hget⟩))
    · exact .refl
  | nothingToDrop hpc hget => exact ⟨l, hl, .refl⟩
  | finished hpc => exact ⟨l, hl, .refl⟩

theorem linkChange_step (h : s.step e = some s') (hl : s.links[c]? = some l) :
    ∃ l', s'.links[c]? = some l' ∧ LinkChange s e c l l' := by
  rcases step_cases h with ⟨_, _, rfl, rfl⟩ | ⟨k, call, e', rfl, hk, hacts⟩ | ⟨order, rfl, -, rfl⟩
  · exact ⟨l, hl, .refl⟩
  · exact linkChange_of_acts hk hacts hl
  · obtain ⟨-, -, -, hlinks⟩ := closeAll_spec order s
    obtain ⟨n, hn⟩ := hlinks c l hl
    refine ⟨_, hn, id, fun x hx => ?_, Or.inl⟩
    rcases List.mem_append.mp hx with hx | hx
    · exact Or.inl hx
    · exact Or.inr (Or.inl (List.eq_of_mem_replicate hx))

/-- A step dials at most one connection. -/
theorem links_step (h : s.step e = some s') :
    s'.links.length = s.links.length
      ∨ ∃ endpoint, s'.links = s.links ++ [⟨endpoint, [], false, false⟩] := by
  rcases step_cases h with ⟨_, _, rfl, rfl⟩ | ⟨k, call, e', rfl, hk, hacts⟩ | ⟨order, rfl, -, rfl⟩
  · exact Or.inl rfl
  · cases hacts with
    | dialed hpc => exact Or.inr ⟨_, rfl⟩
    | lostRace hpc hget => exact Or.inl (List.length_modify _ _ _)
    | accepted hpc => exact Or.inl (List.length_modify _ _ _)
    | refused hpc => exact Or.inl (List.length_modify _ _ _)
    | dropped hpc hget => exact Or.inl (List.length_modify _ _ _)
    | _ => exact Or.inl rfl
  · exact Or.inl (closeAll_spec order s).2.2.1

/-- **The connections after a step**: those from before, changed as above, and
perhaps a new one, which nobody has touched. -/
theorem link_cases (h : s.step e = some s') (hl' : s'.links[c]? = some l') :
    (∃ l, s.links[c]? = some l ∧ LinkChange s e c l l')
      ∨ (c = s.links.length ∧ l'.closes = [] ∧ l'.Fresh) := by
  cases hl : s.links[c]? with
  | some l =>
    obtain ⟨l₁, hl₁, hch⟩ := linkChange_step h hl
    cases hl₁.symm.trans hl'
    exact Or.inl ⟨l, rfl, hch⟩
  | none =>
    have hlen := List.getElem?_eq_none_iff.mp hl
    rcases links_step h with heq | ⟨endpoint, heq⟩
    · rw [List.getElem?_eq_none (heq ▸ hlen)] at hl'
      cases hl'
    · rw [heq, List.getElem?_append_right hlen] at hl'
      obtain ⟨hlt, rfl⟩ := List.getElem?_eq_some_iff.mp hl'
      have hc : c = s.links.length := Nat.le_antisymm (Nat.sub_eq_zero_iff_le.mp
        (Nat.lt_one_iff.mp hlt)) hlen
      subst hc
      exact Or.inr ⟨rfl, by simp, by simp [PeerConn.Fresh]⟩

/-! ## The invariant -/

/-- A connection number that has been given out. -/
def Valid (s : PoolState) (c : ℕ) : Prop := c < s.links.length

/-- **The invariant of all runs**: the pool and the forwarded streams name
connections that exist, and a stream that goes to drop after an error of its
connection has marked it. -/
structure PoolInv (s : PoolState) : Prop where
  cached : ∀ relayID c, s.conns.get relayID = some c → s.Valid c
  held : ∀ (k : ℕ) (call : ForwardCall), s.calls[k]? = some call →
    ∀ c, call.pc.conn = some c → s.Valid c
  dropping : ∀ (k : ℕ) (call : ForwardCall), s.calls[k]? = some call →
    ∀ c err, call.pc = .drop c err → err.transport = true → s.Failed c

theorem Valid.step (hv : s.Valid c) (h : s.step e = some s') : s'.Valid c := by
  unfold Valid at *
  rcases links_step h with heq | ⟨_, heq⟩
  · rwa [heq]
  · rw [heq, List.length_append]
    exact Nat.lt_add_right _ hv

theorem Failed.step (hf : s.Failed c) (h : s.step e = some s') : s'.Failed c := by
  obtain ⟨l, hl, hfl⟩ := hf
  obtain ⟨l', hl', hch⟩ := linkChange_step h hl
  exact ⟨l', hl', hch.failed hfl⟩

/-- **Where a forwarded stream goes**: to a connection from the pool, to the
one it has just dialed, or on with its own – and to drop only from the exchange
that has just failed. -/
theorem Acts.conn {e : CallEvent} (h : s.Acts k call e s') :
    ∃ pc, s'.calls = s.calls.modify k (fun call => { call with pc := pc })
      ∧ (∀ c, pc.conn = some c → call.pc.conn = some c
        ∨ s.conns.get call.relayID = some c ∨ (c = s.links.length ∧ s'.Valid c))
      ∧ ∀ c err, pc = .drop c err → err.transport = true →
        call.pc.conn = some c ∧ (s.Valid c → s'.Failed c) := by
  cases h with
  | hit hpc hget =>
    refine ⟨_, rfl, fun c hc => Or.inr (Or.inl ?_), fun _ _ h => nomatch h⟩
    cases hc
    exact hget
  | dialed hpc =>
    refine ⟨_, rfl, fun c hc => Or.inr (Or.inr ?_), fun _ _ h => nomatch h⟩
    cases hc
    refine ⟨rfl, ?_⟩
    show _ < (s.links ++ _).length
    rw [List.length_append]
    exact Nat.lt_succ_self _
  | lostRace hpc hget =>
    refine ⟨_, rfl, fun c hc => Or.inr (Or.inl ?_), fun _ _ h => nomatch h⟩
    cases hc
    exact hget
  | installed hpc hget =>
    exact ⟨_, rfl, fun c hc => Or.inl (hpc ▸ hc), fun _ _ h => nomatch h⟩
  | accepted hpc =>
    exact ⟨_, rfl, fun c hc => Or.inl (hpc ▸ hc), fun _ _ h => nomatch h⟩
  | @refused c err hpc =>
    refine ⟨_, rfl, fun c hc => Or.inl (hpc ▸ hc), fun c₁ err₁ heq ht => ?_⟩
    cases heq
    refine ⟨congrArg ForwardPC.conn hpc, fun hv => ?_⟩
    refine ⟨_, links_modifyLink (List.getElem?_eq_getElem hv), ?_⟩
    rw [if_pos rfl]
    show (_ || err.transport) = true
    rw [ht, Bool.or_true]
  | _ => exact ⟨_, rfl, fun _ h => (nomatch h), fun _ _ h => nomatch h⟩

/-- **The forwarded streams after a step**: those from before, a new one, and
the one that took the step. -/
theorem call_cases (h : s.step e = some s') (hk : s'.calls[k]? = some call') :
    (s.calls[k]? = some call' ∧ ∀ e', e ≠ .call k e') ∨ call'.pc = .lookup
      ∨ ∃ call e', e = .call k e' ∧ s.calls[k]? = some call ∧ s.Acts k call e' s' := by
  rcases step_cases h with ⟨_, _, rfl, rfl⟩ | ⟨k₀, call, e', rfl, hk₀, hacts⟩ | ⟨order, rfl, -, rfl⟩
  · rcases Nat.lt_or_ge k s.calls.length with hlt | hge
    · exact Or.inl ⟨(List.getElem?_append_left hlt).symm.trans hk, fun _ h => nomatch h⟩
    · rw [List.getElem?_append_right hge] at hk
      cases List.mem_singleton.mp (List.mem_of_getElem? hk)
      exact Or.inr (Or.inl rfl)
  · obtain ⟨pc, hcalls, -, -⟩ := hacts.conn
    obtain ⟨call₁, hk₁, ⟨rfl, -⟩ | ⟨hne, rfl⟩⟩ :=
      calls_goto (s := s) (k := k₀) (p := pc) ((congrArg (·[k]?) hcalls).symm.trans hk)
    · exact Or.inr (Or.inr ⟨call, e', rfl, hk₀, hacts⟩)
    · refine Or.inl ⟨hk₁, fun _ h => ?_⟩
      cases h
      exact hne rfl
  · rw [(closeAll_spec order s).1] at hk
    exact Or.inl ⟨hk, fun _ h => nomatch h⟩

/-- The stream that takes a step is then where the step leaves it. -/
theorem call_eq_of_modify {pc : ForwardPC} (hk : s.calls[k]? = some call)
    (hcalls : s'.calls = s.calls.modify k (fun call => { call with pc := pc }))
    (hk' : s'.calls[k]? = some call') : call' = { call with pc := pc } := by
  rw [hcalls, List.getElem?_modify_eq, hk] at hk'
  exact (Option.some.inj hk').symm

/-- **The pool after a step**: what was in it, and what is installed. -/
theorem conns_step {relayID : GoString} (h : s.step e = some s')
    (hget : s'.conns.get relayID = some c) :
    s.conns.get relayID = some c
      ∨ ∃ k call, e = .call k .install ∧ s.calls[k]? = some call ∧ call.pc = .install c := by
  rcases step_cases h with ⟨_, _, rfl, rfl⟩ | ⟨k, call, e', rfl, hk, hacts⟩ | ⟨order, rfl, -, rfl⟩
  · exact Or.inl hget
  · cases hacts with
    | installed hpc hnone =>
      replace hget : (s.conns.set call.relayID _).get relayID = some c := hget
      rw [GoMap.get_set] at hget
      split_ifs at hget
      · cases hget
        exact Or.inr ⟨k, call, rfl, hk, hpc⟩
      · exact Or.inl hget
    | dropped hpc hsome => exact Or.inl (GoMap.of_get_del hget).1
    | _ => exact Or.inl hget
  · rw [(closeAll_spec order s).2.1] at hget
    exact Or.inl (GoMap.of_get_delAll hget).1

theorem poolInv_step (I : PoolInv s) (h : s.step e = some s') : PoolInv s' := by
  constructor
  · intro relayID c hget
    rcases conns_step h hget with hget | ⟨k, call, -, hk, hpc⟩
    · exact (I.cached relayID c hget).step h
    · exact (I.held k call hk c (congrArg ForwardPC.conn hpc)).step h
  · intro k call' hk' c hc
    rcases call_cases h hk' with ⟨hk, -⟩ | hpc | ⟨call, e', rfl, hk, hacts⟩
    · exact (I.held k call' hk c hc).step h
    · rw [hpc] at hc
      cases hc
    · obtain ⟨pc, hcalls, hconn, -⟩ := hacts.conn
      rw [call_eq_of_modify hk hcalls hk'] at hc
      rcases hconn c hc with hown | hget | ⟨-, hv⟩
      · exact (I.held k call hk c hown).step h
      · exact (I.cached _ c hget).step h
      · exact hv
  · intro k call' hk' c err hpc ht
    rcases call_cases h hk' with ⟨hk, -⟩ | hpc' | ⟨call, e', rfl, hk, hacts⟩
    · exact (I.dropping k call' hk c err hpc ht).step h
    · cases hpc'.symm.trans hpc
    · obtain ⟨pc, hcalls, -, hdrop⟩ := hacts.conn
      rw [call_eq_of_modify hk hcalls hk'] at hpc
      obtain ⟨hown, hfail⟩ := hdrop c err hpc ht
      exact hfail (I.held k call hk c hown)

theorem poolInv_init : PoolInv poolMachine.init :=
  ⟨fun _ _ h => (nomatch h), fun _ _ h => (nomatch h), fun _ _ h => (nomatch h)⟩

/-! ## Connections that nobody has used -/

/-- **A connection out of reach**: it is fresh, it is not in the pool, and only
streams in `K` work on it. -/
structure Untouched (s : PoolState) (c : ℕ) (K : ℕ → Prop) : Prop where
  link : ∃ l, s.links[c]? = some l ∧ l.Fresh
  uncached : ∀ relayID, s.conns.get relayID ≠ some c
  holders : ∀ (k : ℕ) (call : ForwardCall), s.calls[k]? = some call →
    call.pc.conn = some c → K k

/-- It stays so while the streams that work on it rest. -/
theorem Untouched.step {K : ℕ → Prop} (U : s.Untouched c K) (h : s.step e = some s')
    (hrest : ∀ k e' call, e = .call k e' → s.calls[k]? = some call → call.pc.conn ≠ some c) :
    s'.Untouched c K := by
  obtain ⟨l, hl, hfresh⟩ := U.link
  constructor
  · obtain ⟨l', hl', hch⟩ := linkChange_step h hl
    rcases hch.fresh hfresh with hf | ⟨k, call, r, he, hk, hpc⟩
    · exact ⟨l', hl', hf⟩
    · exact absurd (congrArg ForwardPC.conn hpc) (hrest k _ call he hk)
  · intro relayID hget
    rcases conns_step h hget with hget | ⟨k, call, he, hk, hpc⟩
    · exact U.uncached relayID hget
    · exact hrest k _ call he hk (congrArg ForwardPC.conn hpc)
  · intro k call' hk' hc
    rcases call_cases h hk' with ⟨hk, -⟩ | hpc | ⟨call, e', he, hk, hacts⟩
    · exact U.holders k call' hk hc
    · rw [hpc] at hc
      cases hc
    · obtain ⟨pc, hcalls, hconn, -⟩ := hacts.conn
      rw [call_eq_of_modify hk hcalls hk'] at hc
      rcases hconn c hc with hown | hget | ⟨rfl, -⟩
      · exact absurd hown (hrest k e' call he hk)
      · exact absurd hget (U.uncached _)
      · rw [List.getElem?_eq_none (Nat.le_refl _)] at hl
        cases hl

/-- **The invariant of dial races**: a connection that is still to be
installed is out of reach of the other streams, and one that lost its race is
out of reach for good. -/
structure RaceInv (s : PoolState) : Prop where
  installing : ∀ (k : ℕ) (call : ForwardCall) (c : ℕ), s.calls[k]? = some call →
    call.pc = .install c → s.Untouched c (· = k)
  lost : ∀ (c : ℕ) (l : PeerConn), s.links[c]? = some l → .lostRace ∈ l.closes →
    s.Untouched c (fun _ => False)

/-- A connection that has just been dialed is out of reach of the others. -/
theorem PoolInv.untouched_of_dialed (I : PoolInv s) (hk : s.calls[k]? = some call) :
    Untouched (({ s with links := s.links ++ [⟨call.endpoint, [], false, false⟩] }
      : PoolState).goto k (.install s.links.length)) s.links.length (· = k) := by
  constructor
  · exact ⟨_, List.getElem?_concat_length, rfl, rfl⟩
  · exact fun relayID hget => Nat.lt_irrefl _ (I.cached relayID _ hget)
  · intro k' call' hk' hc
    obtain ⟨call₁, hk₁, ⟨rfl, -⟩ | ⟨-, rfl⟩⟩ := calls_goto hk'
    · rfl
    · exact absurd (I.held k' _ hk₁ _ hc) (Nat.lt_irrefl _)

/-- A connection that loses its race is out of reach of all. -/
theorem Untouched.of_lostRace {existing : ℕ} (U : s.Untouched c (· = k))
    (hget : s.conns.get call.relayID = some existing) :
    Untouched ((s.closeLink c .lostRace).goto k (.forward existing)) c (fun _ => False) := by
  obtain ⟨l, hl, hfresh⟩ := U.link
  constructor
  · refine ⟨_, links_modifyLink hl, ?_⟩
    rw [if_pos rfl]
    exact hfresh
  · exact U.uncached
  · intro k' call' hk' hc
    obtain ⟨call₁, hk₁, ⟨rfl, rfl⟩ | ⟨hne, rfl⟩⟩ := calls_goto hk'
    · cases hc
      exact U.uncached _ hget
    · exact hne (U.holders k' _ hk₁ hc)

theorem raceInv_step (I : PoolInv s) (R : RaceInv s) (h : s.step e = some s') : RaceInv s' := by
  constructor
  · intro k call' c hk' hpc
    rcases call_cases h hk' with ⟨hk, hother⟩ | hpc' | ⟨call, e', rfl, hk, hacts⟩
    · refine (R.installing k call' c hk hpc).step h ?_
      rintro k₀ e₀ call₀ rfl hk₀ hc
      cases (R.installing k call' c hk hpc).holders k₀ call₀ hk₀ hc
      exact hother e₀ rfl
    · cases hpc'.symm.trans hpc
    · cases hacts with
      | dialed hpc₁ =>
        cases call_eq_of_modify hk rfl hk'
        cases hpc
        exact I.untouched_of_dialed hk
      | _ =>
        cases call_eq_of_modify hk rfl hk'
        cases hpc
  · intro c l' hl' hlost
    rcases link_cases h hl' with ⟨l, hl, hch⟩ | ⟨-, hcl, -⟩
    · rcases hch.closes _ hlost with hold | hp | ⟨-, hrace⟩ | ⟨hd, -⟩
      · have U := R.lost c l hl hold
        exact U.step h (fun k _ call _ hk hc => U.holders k call hk hc)
      · cases hp
      · obtain ⟨k, call, existing, rfl, hk, hpc, hget⟩ := hrace
        obtain ⟨call', hk', h⟩ := Option.bind_eq_some_iff.mp h
        cases hk.symm.trans hk'
        cases acts_of_callStep h with
        | lostRace hpc' hget' =>
          cases hpc.symm.trans hpc'
          exact (R.installing k call c hk hpc).of_lostRace hget'
        | installed hpc' hget' => cases hget.symm.trans hget'
      · cases hd
    · rw [hcl] at hlost
      cases hlost

theorem raceInv_of_reachable (hs : poolMachine.Reachable s) : PoolInv s ∧ RaceInv s :=
  hs.invariant (I := fun s => PoolInv s ∧ RaceInv s)
    ⟨poolInv_init, fun _ _ _ h => (nomatch h), fun _ _ h => (nomatch h)⟩
    (fun _ I h => ⟨poolInv_step I.1 h, raceInv_step I.1 I.2 h⟩)

theorem racesIdle_of_reachable (hs : poolMachine.Reachable s) : s.RacesIdle := by
  intro c l hl hlost
  obtain ⟨l', hl', hfresh⟩ := ((raceInv_of_reachable hs).2.lost c l hl hlost).link
  cases hl.symm.trans hl'
  exact hfresh.1

/-! ## Isolation, step by step -/

/-- **A drop of one's own is sound**: the stream has marked its connection. -/
theorem PoolInv.soundDrop (I : PoolInv s) (hown : s.OwnDrop e) : s.SoundDrop e := by
  rintro c ⟨k, call, c₀, err, he, hk, hpc, hget⟩
  obtain ⟨htransport, hsame⟩ := hown k call c₀ err he hk hpc
  cases hsame c hget
  exact I.dropping k call hk c err hpc htransport

/-- What a drop leaves: the connection it found is closed, and no more failed
than before. -/
theorem PoolInv.of_drops (I : PoolInv s) (h : s.step e = some s') (hd : s.Drops e c) :
    ∃ l', s'.links[c]? = some l' ∧ .dropped ∈ l'.closes ∧ (l'.failed = true → s.Failed c) := by
  obtain ⟨k, call, c₀, err, rfl, hk, hpc, hget⟩ := hd
  have hl := List.getElem?_eq_getElem (I.cached _ c hget)
  obtain ⟨call', hk', h⟩ := Option.bind_eq_some_iff.mp h
  cases hk.symm.trans hk'
  cases acts_of_callStep h with
  | dropped hpc' hget' =>
    cases hget.symm.trans hget'
    refine ⟨_, links_modifyLink hl, ?_⟩
    rw [if_pos rfl]
    exact ⟨List.mem_append_right _ (List.mem_singleton_self _), fun hf => ⟨_, hl, hf⟩⟩
  | nothingToDrop hpc' hget' => cases hget.symm.trans hget'

/-- **Where the cause of a close comes from**, when drops are sound. -/
theorem SoundDrop.close_cases (hd : s.SoundDrop e) (h : s.step e = some s')
    (hl' : s'.links[c]? = some l') {cause : CloseCause} (hc : cause ∈ l'.closes) :
    (∃ l, s.links[c]? = some l ∧ cause ∈ l.closes ∧ (l.failed = true → l'.failed = true))
      ∨ cause = .poolClosed ∨ (cause = .lostRace ∧ s.LosesRace e c)
      ∨ (cause = .dropped ∧ l'.failed = true) := by
  rcases link_cases h hl' with ⟨l, hl, hch⟩ | ⟨-, hcl, -⟩
  · rcases hch.closes _ hc with hold | hp | hrace | ⟨hdr, hdrops⟩
    · exact Or.inl ⟨l, hl, hold, hch.failed⟩
    · exact Or.inr (Or.inl hp)
    · exact Or.inr (Or.inr (Or.inl hrace))
    · obtain ⟨l₁, hl₁, hf⟩ := hd c hdrops
      cases hl.symm.trans hl₁
      exact Or.inr (Or.inr (Or.inr ⟨hdr, hch.failed hf⟩))
  · rw [hcl] at hc
    cases hc

theorem DropsIsolated.step (P : s.DropsIsolated) (hd : s.SoundDrop e)
    (h : s.step e = some s') : s'.DropsIsolated := by
  intro c l' hl' hc
  rcases hd.close_cases h hl' hc with ⟨l, hl, hold, hf⟩ | hp | ⟨hr, -⟩ | ⟨-, hf⟩
  · exact hf (P c l hl hold)
  · cases hp
  · cases hr
  · exact hf

theorem Isolated.step (P : s.Isolated) (hd : s.SoundDrop e) (hr : s.NoRace e)
    (h : s.step e = some s') : s'.Isolated := by
  intro c l' hl' cause hc hne
  rcases hd.close_cases h hl' hc with ⟨l, hl, hold, hf⟩ | hp | ⟨-, hrace⟩ | ⟨-, hf⟩
  · exact hf (P c l hl cause hold hne)
  · exact absurd hp hne
  · exact absurd hrace (hr c)
  · exact hf

/-- **A drop that is not sound closes a connection that has not failed.** -/
theorem PoolInv.not_dropsIsolated (I : PoolInv s) (hd : ¬ s.SoundDrop e)
    (h : s.step e = some s') : ¬ s'.DropsIsolated := by
  intro P
  refine hd fun c hdrops => ?_
  obtain ⟨l', hl', hc, hf⟩ := I.of_drops h hdrops
  exact hf (P c l' hl' hc)

/-- So does a race. -/
theorem RaceInv.not_isolated (I : PoolInv s) (R : RaceInv s) (hr : s.LosesRace e c)
    (h : s.step e = some s') : ¬ s'.Isolated := by
  intro P
  have R' := raceInv_step I R h
  obtain ⟨k, call, existing, rfl, hk, hpc, hget⟩ := hr
  obtain ⟨l, hl, -⟩ := (R.installing k call c hk hpc).link
  obtain ⟨call', hk', h⟩ := Option.bind_eq_some_iff.mp h
  cases hk.symm.trans hk'
  cases acts_of_callStep h with
  | installed hpc' hget' => cases hget.symm.trans hget'
  | lostRace hpc' hget' =>
    cases hpc.symm.trans hpc'
    have hl' := links_modifyLink (d := c)
      (f := fun l => { l with closes := l.closes ++ [.lostRace] }) hl
    rw [if_pos rfl] at hl'
    have hmem : CloseCause.lostRace ∈ l.closes ++ [.lostRace] :=
      List.mem_append_right _ (List.mem_singleton_self _)
    obtain ⟨l₁, hl₁, -, hfresh⟩ := (R'.lost c _ hl' hmem).link
    have hfailed := P c l₁ hl₁ .lostRace (by cases hl'.symm.trans hl₁; exact hmem) (by decide)
    exact nomatch hfresh.symm.trans hfailed

end PoolState

/-- **Isolation, drop by drop.** In a run of the pool every connection that it closes,
other than through `Close`, has failed, in every state, exactly when every `Drop` is
sound and no dial comes second. A dial that comes second is closed by `Get`, and no
stream was ever asked of it; leaving these aside, what is asked is that every `Drop` is
sound. -/
theorem isolated_iff_soundDrop {h : List (Transition PoolState PoolEvent)} {s : PoolState}
    (hx : poolMachine.Exec h s) :
    (Machine.Throughout PoolState.Isolated h s
        ↔ ∀ t ∈ h, PoolState.SoundDrop t.pre t.ev ∧ PoolState.NoRace t.pre t.ev)
      ∧ (Machine.Throughout PoolState.DropsIsolated h s
        ↔ ∀ t ∈ h, PoolState.SoundDrop t.pre t.ev)
      ∧ Machine.Throughout PoolState.RacesIdle h s := by
  have hinit : PoolState.Isolated poolMachine.init := fun _ _ h => nomatch h
  have hinit' : PoolState.DropsIsolated poolMachine.init := fun _ _ h => nomatch h
  refine ⟨?_, ?_, ?_⟩
  · refine hx.throughout_iff (G := fun s e => s.SoundDrop e ∧ s.NoRace e) hinit id ?_ ?_
    · exact fun _ P he hstep => P.step he.1 he.2 hstep
    · intro s e s' hs _ he hstep P
      obtain ⟨I, R⟩ := PoolState.raceInv_of_reachable hs
      rcases not_and_or.mp he with hd | hr
      · exact I.not_dropsIsolated hd hstep (fun c l hl hc => P c l hl _ hc (by decide))
      · obtain ⟨c, hrace⟩ := not_forall_not.mp hr
        exact R.not_isolated I hrace hstep P
  · refine hx.throughout_iff hinit' id ?_ ?_
    · exact fun _ P he hstep => P.step he hstep
    · exact fun hs _ he hstep =>
        (PoolState.raceInv_of_reachable hs).1.not_dropsIsolated he hstep
  · exact ⟨PoolState.racesIdle_of_reachable ⟨h, hx⟩,
      fun t ht => PoolState.racesIdle_of_reachable (hx.step_of_mem ht).1⟩

/-- **When peer connections are isolated.** In a run in which every `Drop` follows an
error of the transport, and finds the connection of this error in the pool or none,
every connection that `Drop` has closed has failed, in every state. No stream was ever
asked of a connection that `Get` has closed because its dial came second; where no dial
comes second either, every connection that the pool has closed, other than through
`Close`, has failed. -/
theorem isolated_of_ownDrop {h : List (Transition PoolState PoolEvent)} {s : PoolState}
    (hx : poolMachine.Exec h s) (hown : ∀ t ∈ h, PoolState.OwnDrop t.pre t.ev) :
    Machine.Throughout PoolState.DropsIsolated h s
      ∧ Machine.Throughout PoolState.RacesIdle h s
      ∧ ((∀ t ∈ h, PoolState.NoRace t.pre t.ev) → Machine.Throughout PoolState.Isolated h s) := by
  obtain ⟨hall, hdrops, hraces⟩ := isolated_iff_soundDrop hx
  have hsound : ∀ t ∈ h, PoolState.SoundDrop t.pre t.ev := fun t ht =>
    (PoolState.raceInv_of_reachable (hx.step_of_mem ht).1).1.soundDrop (hown t ht)
  exact ⟨hdrops.mpr hsound, hraces, fun hrace =>
    hall.mpr fun t ht => ⟨hsound t ht, hrace t ht⟩⟩

/-- Two streams are forwarded to one relay, over one connection: the first is
spliced, and the peer has no provider for the second. -/
def rejectedStream : List PoolEvent :=
  [.start (go "r2") (go "10.0.0.2:7443"), .call 0 .lookup, .call 0 (.dial true), .call 0 .install,
    .call 0 (.forward (.ok ())),
    .start (go "r2") (go "10.0.0.2:7443"), .call 1 .lookup,
    .call 1 (.forward (.error (.peerRejected 503 (go "no local provider for forwarded stream")))),
    .call 1 .drop]

/-- The `STREAM_REJECT` of the second closes the connection of the first, on
which nothing has failed. -/
theorem reject_closes_spliced_conn :
    ∃ s, poolMachine.Reachable s ∧ ¬ s.Isolated
      ∧ s.links[0]? = some ⟨go "10.0.0.2:7443", [.dropped], true, false⟩
      ∧ s.calls[0]? = some ⟨go "r2", go "10.0.0.2:7443", .splice 0⟩ := by
  obtain ⟨s, hrun, hlink, hcall⟩ : ∃ s, poolMachine.run rejectedStream poolMachine.init = some s
      ∧ s.links[0]? = some ⟨go "10.0.0.2:7443", [.dropped], true, false⟩
      ∧ s.calls[0]? = some ⟨go "r2", go "10.0.0.2:7443", .splice 0⟩ :=
    ⟨_, rfl, rfl, rfl⟩
  obtain ⟨h, hx, -⟩ := Machine.exec_of_run _ _ hrun
  refine ⟨s, ⟨h, hx⟩, fun P => ?_, hlink, hcall⟩
  exact nomatch P 0 _ hlink .dropped (List.mem_singleton_self _) (by decide)

/-- A dropped connection whose stream could not be opened. -/
theorem failed_open_drops_conn :
    ∃ (h : List (Transition PoolState PoolEvent)) (s : PoolState),
      poolMachine.Exec h s ∧ Machine.Throughout PoolState.Isolated h s
        ∧ s.links[0]? = some ⟨go "10.0.0.2:7443", [.dropped], true, true⟩ := by
  obtain ⟨s₁, s₂, s₃, s₄, hrun, h₂, h₃, h₄, hconns₁, hconns₃, hcall₃, hlink⟩ : ∃ s₁ s₂ s₃ s₄,
      poolMachine.run [.start (go "r2") (go "10.0.0.2:7443"), .call 0 .lookup,
        .call 0 (.dial true)] poolMachine.init = some s₁
      ∧ poolMachine.step s₁ (.call 0 .install) = some s₂
      ∧ poolMachine.step s₂ (.call 0 (.forward (.error (.openPeerStream (go "timeout"))))) = some s₃
      ∧ poolMachine.step s₃ (.call 0 .drop) = some s₄
      ∧ s₁.conns = ∅ ∧ s₃.conns.get (go "r2") = some 0
      ∧ s₃.calls[0]? = some ⟨go "r2", go "10.0.0.2:7443", .drop 0 (.openPeerStream (go "timeout"))⟩
      ∧ s₄.links[0]? = some ⟨go "10.0.0.2:7443", [.dropped], true, true⟩ :=
    ⟨_, _, _, _, rfl, rfl, rfl, rfl, rfl, rfl, rfl, rfl⟩
  obtain ⟨h, hx, hev⟩ := Machine.exec_of_run _ _ hrun
  have hx' := ((hx.snoc h₂).snoc h₃).snoc h₄
  have hcond : ∀ t ∈ ((h ++ [⟨s₁, .call 0 .install, s₂⟩])
        ++ [⟨s₂, .call 0 (.forward (.error (.openPeerStream (go "timeout")))), s₃⟩])
        ++ [⟨s₃, .call 0 .drop, s₄⟩],
      PoolState.OwnDrop t.pre t.ev ∧ PoolState.NoRace t.pre t.ev := by
    intro t ht
    simp only [List.append_assoc, List.mem_append, List.mem_singleton] at ht
    rcases ht with ht | rfl | rfl | rfl
    · have hmem : t.ev ∈ h.map Transition.ev := List.mem_map_of_mem ht
      rw [hev] at hmem
      constructor
      · rintro k call c err he -
        simp [he] at hmem
      · rintro c ⟨k, call, existing, he, -⟩
        simp [he] at hmem
    · refine ⟨fun _ _ _ _ he => (nomatch he), ?_⟩
      rintro c ⟨k, call, existing, -, -, -, hget⟩
      rw [show s₁.conns = ∅ from hconns₁] at hget
      cases hget
    · exact ⟨fun _ _ _ _ he => (nomatch he), fun _ ⟨_, _, _, he, _⟩ => nomatch he⟩
    · refine ⟨?_, fun _ ⟨_, _, _, he, _⟩ => nomatch he⟩
      intro k call c err he hk hpc
      cases he
      cases hcall₃.symm.trans hk
      cases hpc
      exact ⟨rfl, fun c' hget => Option.some.inj (hget.symm.trans hconns₃)⟩
  refine ⟨_, s₄, hx', ?_, hlink⟩
  exact (isolated_of_ownDrop hx' fun t ht => (hcond t ht).1).2.2 fun t ht => (hcond t ht).2

/-! ## The calls of a forwarded stream

A forwarded stream calls `Get`, and `Drop` after an error. `PoolCalls` has these calls
on their own, in smaller steps: there `Drop` closes the connection after the lock is
released. Every run here is a run there, so what is known of the calls holds of the
forwarded streams. -/

/-- Where the `Get` of a forwarded stream is. -/
def ForwardPC.get : ForwardPC → Option GetPC
  | .lookup => some .lookup
  | .dial => some .dial
  | .install c => some (.install c)
  | .forward _ | .drop _ _ | .splice _ | .returned => none

namespace PoolState

/-- **One pool**: the same connections are cached, dialed and closed. -/
structure SamePool (s : PoolState) (u : PoolCalls) : Prop where
  conns : u.conns = s.conns
  dialed : u.dialed = s.links.map PeerConn.endpoint
  closed : ∀ c, u.closed.count c = ((s.links[c]?).map fun l => l.closes.length).getD 0

/-- **The calls of the forwarded streams**: the `Get` of the stream `k` is the call
`slots[k]`, as long as it is in progress. -/
structure Calling (calls : List ForwardCall) (made : List PoolCall) (slots : List ℕ) : Prop where
  length : slots.length = calls.length
  nodup : slots.Nodup
  lt : ∀ j ∈ slots, j < made.length
  gets : ∀ (k j : ℕ) (call : ForwardCall) (pc : GetPC), calls[k]? = some call →
    slots[k]? = some j → call.pc.get = some pc →
    made[j]? = some (.get call.relayID call.endpoint pc)

variable {s : PoolState} {u : PoolCalls} {slots : List ℕ} {k j c : ℕ} {call : ForwardCall}
  {calls : List ForwardCall} {made : List PoolCall}

theorem endpoints_modifyLink {f : PeerConn → PeerConn} (hf : ∀ l, (f l).endpoint = l.endpoint) :
    (s.modifyLink c f).links.map PeerConn.endpoint = s.links.map PeerConn.endpoint := by
  refine List.ext_getElem? fun d => ?_
  unfold modifyLink
  rw [List.getElem?_map, List.getElem?_map, List.getElem?_modify]
  cases s.links[d]? with
  | none => rfl
  | some l =>
    show some (if c = d then f l else l).endpoint = some l.endpoint
    split_ifs
    · rw [hf]
    · rfl

/-- What a stream notes on its connection is not the pool's. -/
theorem SamePool.mark {f : PeerConn → PeerConn} (h : SamePool s u)
    (hf : ∀ l, (f l).endpoint = l.endpoint ∧ (f l).closes = l.closes) :
    SamePool (s.modifyLink c f) u where
  conns := h.conns
  dialed := h.dialed.trans (endpoints_modifyLink fun l => (hf l).1).symm
  closed d := by
    rw [h.closed d]
    unfold modifyLink
    rw [List.getElem?_modify]
    cases s.links[d]? with
    | none => rfl
    | some l =>
      show l.closes.length = (if c = d then f l else l).closes.length
      split_ifs
      · rw [(hf l).2]
      · rfl

/-- A new connection is open. -/
theorem SamePool.dial (h : SamePool s u) (endpoint : GoString) :
    SamePool { s with links := s.links ++ [⟨endpoint, [], false, false⟩] }
      { u with dialed := u.dialed ++ [endpoint] } where
  conns := h.conns
  dialed := by
    rw [h.dialed, List.map_append]
    rfl
  closed d := by
    rw [h.closed d, List.getElem?_append]
    split_ifs with hd
    · rfl
    · rw [List.getElem?_eq_none (Nat.le_of_not_lt hd)]
      cases d - s.links.length with
      | zero => rfl
      | succ n => rfl

theorem SamePool.closeLink (h : SamePool s u) (hv : s.Valid c) (cause : CloseCause) :
    SamePool (s.closeLink c cause) { u with closed := u.closed ++ [c] } where
  conns := h.conns
  dialed := h.dialed.trans (endpoints_modifyLink (c := c)
    (f := fun l => { l with closes := l.closes ++ [cause] }) fun _ => rfl).symm
  closed d := by
    have hl := List.getElem?_eq_getElem hv
    unfold PoolState.closeLink modifyLink
    rw [List.count_append, h.closed d, List.count_singleton, List.getElem?_modify]
    by_cases hcd : c = d
    · subst hcd
      simp [hl]
    · simp [hcd]

theorem SamePool.closeAll {order : List (GoString × ℕ)} (h : SamePool s u)
    (hv : ∀ e ∈ order, s.Valid e.snd) :
    SamePool (s.closeAll order) (order.foldl PoolCalls.closeRound u) := by
  induction order generalizing s u with
  | nil => exact h
  | cons e order ih =>
    have hone := h.closeLink (hv e List.mem_cons_self) .poolClosed
    refine ih ⟨?_, hone.dialed, hone.closed⟩ fun e' he' => ?_
    · show u.conns.del e.fst = s.conns.del e.fst
      rw [h.conns]
    · show e'.snd < (s.links.modify e.snd _).length
      rw [List.length_modify]
      exact hv e' (List.mem_cons_of_mem _ he')

/-- Where the `Get` of a stream is. -/
theorem Calling.get (h : Calling calls made slots) (hk : calls[k]? = some call) {pc : ForwardPC}
    {p : GetPC} (hpc : call.pc = pc) (hp : pc.get = some p) : ∃ j, slots[k]? = some j
      ∧ made[j]? = some (.get call.relayID call.endpoint p) := by
  have hlt : k < slots.length := by
    rw [h.length]
    exact (List.getElem?_eq_some_iff.mp hk).1
  have hj := List.getElem?_eq_getElem hlt
  exact ⟨_, hj, h.gets k _ call p hk hj (hpc ▸ hp)⟩

/-- A stream moves on, and so does its `Get`. -/
theorem Calling.modify {pc : ForwardPC} {next : PoolCall} (h : Calling calls made slots)
    (hk : calls[k]? = some call) (hj : slots[k]? = some j)
    (hnext : ∀ p, pc.get = some p → next = .get call.relayID call.endpoint p) :
    Calling (calls.modify k (fun call => { call with pc := pc })) (made.set j next) slots where
  length := by rw [List.length_modify, h.length]
  nodup := h.nodup
  lt i hi := by
    rw [List.length_set]
    exact h.lt i hi
  gets k' j' call' p hk' hj' hp := by
    obtain ⟨call₀, hk₀, ⟨rfl, rfl⟩ | ⟨hne, rfl⟩⟩ := of_getElem?_modify hk'
    · cases hj.symm.trans hj'
      cases hk.symm.trans hk₀
      rw [List.getElem?_set_self (h.lt j (List.mem_of_getElem? hj)), hnext p hp]
    · have hjj : j ≠ j' := by
        rintro rfl
        have hlt := (List.getElem?_eq_some_iff.mp hj).1
        exact hne ((List.getElem?_inj hlt h.nodup).mp (hj.trans hj'.symm)).symm
      rw [List.getElem?_set_ne hjj]
      exact h.gets k' j' _ p hk₀ hj' hp

/-- A stream moves on that is past its `Get`. -/
theorem Calling.idle {pc : ForwardPC} (h : Calling calls made slots) (hpc : pc.get = none) :
    Calling (calls.modify k (fun call => { call with pc := pc })) made slots where
  length := by rw [List.length_modify, h.length]
  nodup := h.nodup
  lt := h.lt
  gets k' j' call' p hk' hj' hp := by
    obtain ⟨call₀, hk₀, ⟨rfl, rfl⟩ | ⟨hne, rfl⟩⟩ := of_getElem?_modify hk'
    · cases hpc.symm.trans hp
    · exact h.gets k' j' _ p hk₀ hj' hp

/-- Calls that belong to no `Get`. -/
theorem Calling.append (h : Calling calls made slots) (more : List PoolCall) :
    Calling calls (made ++ more) slots where
  length := h.length
  nodup := h.nodup
  lt i hi := by
    rw [List.length_append]
    exact Nat.lt_add_right _ (h.lt i hi)
  gets k j call p hk hj hp :=
    (List.getElem?_append_left (h.lt j (List.mem_of_getElem? hj))).trans
      (h.gets k j call p hk hj hp)

/-- A stream starts, and calls `Get`. -/
theorem Calling.start (h : Calling calls made slots) (relayID endpoint : GoString) :
    Calling (calls ++ [⟨relayID, endpoint, .lookup⟩]) (made ++ [.get relayID endpoint .lookup])
      (slots ++ [made.length]) where
  length := by rw [List.length_append, List.length_append, h.length]; rfl
  nodup := by
    refine List.nodup_append_comm.mp (List.nodup_cons.mpr ⟨fun hmem => ?_, h.nodup⟩)
    exact Nat.lt_irrefl _ (h.lt _ hmem)
  lt i hi := by
    rw [List.length_append]
    obtain hi | hi := List.mem_append.mp hi
    · exact Nat.lt_add_right _ (h.lt i hi)
    · cases List.mem_singleton.mp hi
      exact Nat.lt_succ_self _
  gets k j call p hk hj hp := by
    obtain hk | ⟨rfl, rfl⟩ := of_getElem?_concat hk
    · have hlt : k < slots.length := h.length ▸ (List.getElem?_eq_some_iff.mp hk).1
      rw [List.getElem?_append_left hlt] at hj
      exact (h.append _).gets k j call p hk hj hp
    · rw [← h.length, List.getElem?_concat_length] at hj
      cases hj
      cases hp
      exact List.getElem?_concat_length

/-- **The forwarded streams are simulated**: by calls that have come to the same pool. -/
def Simulated (s : PoolState) : Prop :=
  ∃ u slots, poolCallsMachine.Reachable u ∧ SamePool s u ∧ Calling s.calls u.calls slots

/-- A step of a `Get`. -/
theorem simulated_get {s₁ : PoolState} {u₁ : PoolCalls} {pc : ForwardPC} {next : PoolCall}
    {e : PoolCallEvent} (hu : poolCallsMachine.Reachable u)
    (hstep : poolCallsMachine.step u e = some (u₁.goto j next)) (hpool : SamePool s₁ u₁)
    (hcalls : Calling s₁.calls u₁.calls slots) (hk : s₁.calls[k]? = some call)
    (hj : slots[k]? = some j)
    (hnext : ∀ p, pc.get = some p → next = .get call.relayID call.endpoint p) :
    Simulated (s₁.goto k pc) :=
  ⟨u₁.goto j next, slots, hu.step hstep, ⟨hpool.conns, hpool.dialed, hpool.closed⟩,
    hcalls.modify hk hj hnext⟩

/-- A stream that is past its `Get`. -/
theorem simulated_idle {pc : ForwardPC} (hu : poolCallsMachine.Reachable u) (hpool : SamePool s u)
    (hcalls : Calling s.calls u.calls slots) (hpc : pc.get = none) : Simulated (s.goto k pc) :=
  ⟨u, slots, hu, ⟨hpool.conns, hpool.dialed, hpool.closed⟩, hcalls.idle hpc⟩

/-- **A step of a forwarded stream** is a step of its `Get`, a whole `Drop`, or none. -/
theorem simulated_of_acts {e : CallEvent} {s' : PoolState} (I : PoolInv s)
    (hk : s.calls[k]? = some call) (hacts : s.Acts k call e s') (hs : s.Simulated) :
    s'.Simulated := by
  obtain ⟨u, slots, hu, hpool, hcalls⟩ := hs
  have hconns := hpool.conns
  cases hacts with
  | @hit c hpc hget =>
    obtain ⟨j, hj, hcall⟩ := hcalls.get hk hpc rfl
    have hstep : poolCallsMachine.step u (.lookup j)
        = some (u.goto j (.get call.relayID call.endpoint (.returned (some c)))) := by
      simp only [poolCallsMachine, PoolCalls.step, hcall, hconns, hget]
    exact simulated_get hu hstep hpool hcalls hk hj fun _ hp => by cases hp
  | miss hpc hget =>
    obtain ⟨j, hj, hcall⟩ := hcalls.get hk hpc rfl
    have hstep : poolCallsMachine.step u (.lookup j)
        = some (u.goto j (.get call.relayID call.endpoint .dial)) := by
      simp only [poolCallsMachine, PoolCalls.step, hcall, hconns, hget]
    exact simulated_get hu hstep hpool hcalls hk hj fun _ hp => by cases hp; rfl
  | unreachable hpc =>
    obtain ⟨j, hj, hcall⟩ := hcalls.get hk hpc rfl
    have hstep : poolCallsMachine.step u (.dial j false)
        = some (u.goto j (.get call.relayID call.endpoint (.returned none))) := by
      simp [poolCallsMachine, PoolCalls.step, hcall]
    exact simulated_get hu hstep hpool hcalls hk hj fun _ hp => by cases hp
  | dialed hpc =>
    obtain ⟨j, hj, hcall⟩ := hcalls.get hk hpc rfl
    have hlen : u.dialed.length = s.links.length := by rw [hpool.dialed, List.length_map]
    have hstep : poolCallsMachine.step u (.dial j true)
        = some (({ u with dialed := u.dialed ++ [call.endpoint] } : PoolCalls).goto j
          (.get call.relayID call.endpoint (.install s.links.length))) := by
      simp [poolCallsMachine, PoolCalls.step, hcall, hlen]
    exact simulated_get hu hstep (hpool.dial call.endpoint) hcalls hk hj
      fun _ hp => by cases hp; rfl
  | @lostRace c existing hpc hget =>
    obtain ⟨j, hj, hcall⟩ := hcalls.get hk hpc rfl
    have hstep : poolCallsMachine.step u (.install j)
        = some (({ u with closed := u.closed ++ [c] } : PoolCalls).goto j
          (.get call.relayID call.endpoint (.returned (some existing)))) := by
      simp only [poolCallsMachine, PoolCalls.step, hcall, hconns, hget]
    have hv := I.held k call hk c (congrArg ForwardPC.conn hpc)
    exact simulated_get hu hstep (hpool.closeLink hv .lostRace) hcalls hk hj fun _ hp => by cases hp
  | @installed c hpc hget =>
    obtain ⟨j, hj, hcall⟩ := hcalls.get hk hpc rfl
    have hstep : poolCallsMachine.step u (.install j)
        = some (({ u with conns := u.conns.set call.relayID c } : PoolCalls).goto j
          (.get call.relayID call.endpoint (.returned (some c)))) := by
      simp only [poolCallsMachine, PoolCalls.step, hcall, hconns, hget]
    refine simulated_get hu hstep ⟨?_, hpool.dialed, hpool.closed⟩ hcalls hk hj
      fun _ hp => by cases hp
    show u.conns.set call.relayID c = s.conns.set call.relayID c
    rw [hconns]
  | accepted hpc =>
    exact simulated_idle hu (hpool.mark fun _ => ⟨rfl, rfl⟩) hcalls rfl
  | refused hpc =>
    exact simulated_idle hu (hpool.mark fun _ => ⟨rfl, rfl⟩) hcalls rfl
  | @dropped c₀ c err hpc hget =>
    have hu' := PoolCalls.reachable_drop hu call.relayID
    rw [hconns, hget] at hu'
    have hclose := hpool.closeLink (I.cached _ c hget) .dropped
    exact ⟨_, slots, hu', ⟨rfl, hclose.dialed, hclose.closed⟩, (hcalls.idle rfl).append _⟩
  | nothingToDrop hpc hget =>
    have hu' := PoolCalls.reachable_drop hu call.relayID
    rw [hconns, hget, GoMap.del_of_get_none hget, Option.toList_none, List.append_nil] at hu'
    exact ⟨_, slots, hu', ⟨rfl, hpool.dialed, hpool.closed⟩, (hcalls.idle rfl).append _⟩
  | finished hpc => exact simulated_idle hu hpool hcalls rfl

/-- **Every run of forwarded streams is one of calls on the same pool.** -/
theorem simulated_of_reachable {s : PoolState} (hs : poolMachine.Reachable s) : s.Simulated := by
  refine (hs.invariant (I := fun s => PoolInv s ∧ s.Simulated) ⟨poolInv_init, ?_⟩
    fun _ I hstep => ⟨poolInv_step I.1 hstep, ?_⟩).2
  · exact ⟨_, [], .init, ⟨rfl, rfl, fun _ => rfl⟩, rfl, List.nodup_nil, nofun, nofun⟩
  · obtain ⟨u, slots, hu, hpool, hcalls⟩ := I.2
    rcases step_cases hstep with ⟨relayID, endpoint, rfl, rfl⟩ | ⟨k, call, e', rfl, hk, hacts⟩
      | ⟨order, rfl, horder, rfl⟩
    · exact ⟨_, _, hu.step (e := .get relayID endpoint) rfl,
        ⟨hpool.conns, hpool.dialed, hpool.closed⟩, hcalls.start relayID endpoint⟩
    · exact simulated_of_acts I.1 hk hacts I.2
    · have hclose : poolCallsMachine.step u (.close order)
          = some (order.foldl PoolCalls.closeRound u) := if_pos (hpool.conns ▸ horder)
      refine ⟨_, slots, hu.step hclose, hpool.closeAll fun e he => ?_, ?_⟩
      · exact I.1.cached e.fst e.snd ((horder.mem_iff _ _).mp he)
      · rw [(closeAll_spec order _).1, PoolCalls.foldl_closeRound]
        exact hcalls

/-- **The pool closes no connection twice**, whatever the forwarded streams do. -/
theorem closes_length_le_one {s : PoolState} {c : ℕ} {l : PeerConn}
    (hs : poolMachine.Reachable s) (hl : s.links[c]? = some l) : l.closes.length ≤ 1 := by
  obtain ⟨u, slots, hu, hpool, -⟩ := simulated_of_reachable hs
  have hcount := hpool.closed c
  rw [hl] at hcount
  calc l.closes.length = u.closed.count c := hcount.symm
    _ ≤ 1 := List.nodup_iff_count_le_one.mp (PoolCalls.custody_of_reachable hu).2 c

end PoolState
