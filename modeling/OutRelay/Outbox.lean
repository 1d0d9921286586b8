import OutRelay.GoChan
import OutRelay.Run

/-!
# Queues that nobody waits for

A server hands work to one goroutine through a buffered channel. Where the
producers must not wait, they send in a `select` with a `default`: a full
channel drops the element (`GoChan.trySend`). Such a channel is never closed and
never overfull, and an `Outbox` is a channel with that in its type. On an outbox
the `select` neither blocks nor panics, and does what `offer` says
(`trySend_chan`).

`Machine.Exec.conveys` is the law of such a queue in a run. If every step takes
at one end what it takes and adds at the other what it adds, then what has come
out, followed by what is inside, is what has gone in, in that order.
-/

namespace GoChan

variable {α : Type}

/-- `select { case c <- x: default: }`, with which of the two it was. -/
def trySend (c : GoChan α) (x : α) : ChanResult (Bool × GoChan α) :=
  match c.send x with
  | .panics => .panics
  | .blocks => .done (false, c)
  | .done c' => .done (true, c')

end GoChan

/-- **A channel that is open and holds at most `cap` elements.** -/
structure Outbox (cap : ℕ) (α : Type) where
  chan : GoChan α
  cap_eq : chan.cap = cap
  isOpen : chan.closed = false
  le_cap : chan.buf.length ≤ cap

namespace Outbox

variable {cap : ℕ} {α : Type} {q q' : Outbox cap α} {x : α}

/-- The elements inside, the oldest first. -/
def waiting (q : Outbox cap α) : List α := q.chan.buf

/-- `make(chan T, cap)`. -/
def make : Outbox cap α := ⟨GoChan.make cap, rfl, rfl, Nat.zero_le cap⟩

/-- There is room for one more. -/
def hasRoom (q : Outbox cap α) : Bool := q.waiting.length < cap

/-- Add `x`, or drop it. -/
def offer (q : Outbox cap α) (x : α) : Outbox cap α :=
  if h : q.chan.buf.length < cap then
    ⟨{ q.chan with buf := q.chan.buf ++ [x] }, q.cap_eq, q.isOpen,
      Nat.le_trans (Nat.le_of_eq List.length_append) h⟩
  else q

/-- Take the oldest element. -/
def take (q : Outbox cap α) : Option (α × Outbox cap α) :=
  match h : q.chan.buf with
  | [] => none
  | x :: rest =>
    some (x, ⟨{ q.chan with buf := rest }, q.cap_eq, q.isOpen,
      Nat.le_of_succ_le (h ▸ q.le_cap : (x :: rest).length ≤ cap)⟩)

theorem length_waiting_le : q.waiting.length ≤ cap := q.le_cap

theorem waiting_offer_of_hasRoom (h : q.hasRoom = true) :
    (q.offer x).waiting = q.waiting ++ [x] := by
  have h : q.chan.buf.length < cap := of_decide_eq_true h
  unfold offer
  rw [dif_pos h]
  rfl

theorem offer_of_not_hasRoom (h : q.hasRoom = false) : q.offer x = q :=
  dif_neg (of_decide_eq_false h)

theorem waiting_of_take (h : q.take = some (x, q')) : q.waiting = x :: q'.waiting := by
  unfold take at h
  split at h
  · cases h
  case h_2 y rest hbuf =>
    cases h
    exact hbuf

/-- **The `select` on an outbox** does not block and does not panic. -/
theorem trySend_chan : q.chan.trySend x = .done (q.hasRoom, (q.offer x).chan) := by
  unfold GoChan.trySend GoChan.send offer hasRoom waiting
  by_cases h : q.chan.buf.length < cap
  · simp [q.isOpen, q.cap_eq, h]
  · simp [q.isOpen, q.cap_eq, h]

/-- A receive from an outbox takes the oldest element, or blocks. -/
theorem recv_chan : q.chan.recv
    = q.take.elim .blocks fun p => .done (some p.1, p.2.chan) := by
  unfold GoChan.recv take
  split
  case h_1 x rest hbuf =>
    split
    · rename_i hnil
      cases hbuf.symm.trans hnil
    · rename_i hcons
      cases hbuf.symm.trans hcons
      rfl
  case h_2 hbuf =>
    rw [q.isOpen, if_neg Bool.false_ne_true]
    split
    · rfl
    · rename_i hcons
      cases hbuf.symm.trans hcons

end Outbox

/-! ## What has gone in, and what has come out -/

namespace Machine

variable {σ ε α : Type} {M : Machine σ ε} {h : List (Transition σ ε)} {s : σ}
  {contents : σ → List α} {put got : Transition σ ε → Option α}

/-- **What has come out, then what is inside, is what has gone in.** -/
theorem Exec.conveys (hinit : contents M.init = [])
    (hstep : ∀ t : Transition σ ε, M.step t.pre t.ev = some t.post →
      (got t).toList ++ contents t.post = contents t.pre ++ (put t).toList)
    (hx : M.Exec h s) : h.filterMap got ++ contents s = h.filterMap put := by
  induction hx with
  | nil => exact hinit
  | @snoc h s s' e hx he ih =>
    have hone : ∀ f : Transition σ ε → Option α, [⟨s, e, s'⟩].filterMap f
        = (f ⟨s, e, s'⟩).toList := fun f => by
      rw [List.filterMap_cons]
      cases f ⟨s, e, s'⟩ with
      | none => rfl
      | some a => rfl
    rw [List.filterMap_append, List.filterMap_append, hone, hone, List.append_assoc,
      hstep ⟨s, e, s'⟩ he, ← List.append_assoc, ih]

end Machine
