import Mathlib.Data.Nat.Notation

/-!
# Go channels

A buffered channel holds what has been sent and not yet received, up to its
capacity, and may be closed once. A goroutine that sends on a full channel or
receives from an empty open one blocks; sending on a closed channel and
closing a closed one panic; receiving from a closed channel that is empty
returns the zero value at once, as often as it is asked.

An operation is a function of the channel with three outcomes (`ChanResult`).
An unbuffered channel on which nothing is ever sent – one that is only closed
– is the case of capacity `0`.
-/

/-- What becomes of a channel operation: it blocks, it panics, or it is done
with a result. -/
inductive ChanResult (β : Type)
  | blocks
  | panics
  | done (b : β)

namespace ChanResult

variable {β σ : Type} {r : ChanResult β} {crash s : σ} {k : β → σ}

/-- **Go on with the result of a channel operation**: wait, crash, or continue. -/
def andThen (r : ChanResult β) (crash : σ) (k : β → σ) : Option σ :=
  match r with
  | .blocks => none
  | .panics => some crash
  | .done b => some (k b)

theorem of_andThen (h : r.andThen crash k = some s) :
    (r = .panics ∧ s = crash) ∨ ∃ b, r = .done b ∧ s = k b := by
  cases r with
  | blocks => cases h
  | panics =>
    cases h
    exact Or.inl ⟨rfl, rfl⟩
  | done b =>
    cases h
    exact Or.inr ⟨b, rfl, rfl⟩

/-- What holds after a crash, and of every way to continue, holds. -/
theorem andThen_rule {P : σ → Prop} (h : r.andThen crash k = some s) (hcrash : P crash)
    (hk : ∀ b, P (k b)) : P s := by
  obtain ⟨-, rfl⟩ | ⟨b, -, rfl⟩ := of_andThen h
  · exact hcrash
  · exact hk b

end ChanResult

/-- **A Go channel** of element type `α`. -/
structure GoChan (α : Type) where
  cap : ℕ
  buf : List α
  closed : Bool
  deriving DecidableEq

namespace GoChan

variable {α : Type}

/-- `make(chan T, cap)`. -/
def make (cap : ℕ) : GoChan α := ⟨cap, [], false⟩

/-- `c <- x`. -/
def send (c : GoChan α) (x : α) : ChanResult (GoChan α) :=
  if c.closed then .panics
  else if c.buf.length < c.cap then .done { c with buf := c.buf ++ [x] }
  else .blocks

/-- `x, ok := <-c`; a closed and empty channel gives `none`. -/
def recv (c : GoChan α) : ChanResult (Option α × GoChan α) :=
  match c.buf with
  | x :: rest => .done (some x, { c with buf := rest })
  | [] => if c.closed then .done (none, c) else .blocks

/-- `close(c)`. -/
def close (c : GoChan α) : ChanResult (GoChan α) :=
  if c.closed then .panics else .done { c with closed := true }

/-- A receive never panics. -/
theorem recv_ne_panics (c : GoChan α) : c.recv ≠ .panics := by
  unfold recv
  split
  · exact nofun
  · split <;> exact nofun

/-- A receive that has not blocked has got something. -/
theorem of_recv_andThen {σ : Type} {c : GoChan α} {crash s : σ} {k : Option α × GoChan α → σ}
    (h : c.recv.andThen crash k = some s) : ∃ r, c.recv = .done r ∧ s = k r :=
  (ChanResult.of_andThen h).resolve_left fun hp => c.recv_ne_panics hp.1

/-- The next receive gets `o`. -/
def Receivable (c : GoChan α) (o : Option α) : Prop := ∃ c', c.recv = .done (o, c')

end GoChan
