import Mathlib.Data.Int.ConditionallyCompleteOrder

/-!
# Tickers

A ticker puts a tick into its channel every period. The channel has one place, and
a tick that finds it taken is lost, so a receiver that is held up sees fewer ticks
and never a backlog of them. A tick carries the time at which it was due, which is
earlier than the time at which it is received, and may be earlier than the time at
which it was put.

How old can the last tick be that a receiver has seen? Two things may be held up,
the putting of a tick and its receipt. With both delays at most `late` the answer
is one period and both delays (`Ticker.After.now_le`), however many ticks were
lost.
-/

/-- **A `time.Ticker`**: its period, the time the next tick is due, and the tick in
its channel. `NewTicker` panics on a period that is not positive. -/
structure Ticker where
  period : Int
  due : Int
  tick : Option Int
  period_pos : 0 < period

namespace Ticker

variable {t t' : Ticker} {late last now now' τ : Int}

/-- `time.NewTicker`, called at `now`. -/
def newTicker (period : Int) (hpos : 0 < period) (now : Int) : Ticker :=
  ⟨period, now + period, none, hpos⟩

/-- The timer fires at `now`. The next tick is due at the first multiple of the
period that is not over. -/
def fire (t : Ticker) (now : Int) : Option Ticker :=
  if t.due ≤ now then
    some { t with
      due := t.due + t.period * (1 + (now - t.due) / t.period)
      tick := some (t.tick.getD t.due) }
  else none

/-- A receive from the channel `t.C`. -/
def recv (t : Ticker) : Option (Int × Ticker) := t.tick.map fun τ => (τ, { t with tick := none })

theorem of_fire (h : t.fire now = some t') :
    t.due ≤ now ∧ t'.tick = some (t.tick.getD t.due) ∧ t'.period = t.period
      ∧ t'.due ≤ now + t.period := by
  unfold fire at h
  split_ifs at h with hdue
  cases h
  refine ⟨hdue, rfl, rfl, ?_⟩
  have hmul : t.period * ((now - t.due) / t.period) ≤ now - t.due :=
    Int.mul_ediv_self_le t.period_pos.ne'
  show t.due + t.period * (1 + (now - t.due) / t.period) ≤ now + t.period
  rw [mul_add, mul_one]
  omega

theorem of_recv (h : t.recv = some (τ, t')) : t.tick = some τ ∧ t' = { t with tick := none } := by
  obtain ⟨σ, htick, heq⟩ := Option.map_eq_some_iff.mp h
  cases heq
  exact ⟨htick, rfl⟩

/-! ## Ticks are not early -/

/-- The tick in the channel was due. -/
def Past (t : Ticker) (now : Int) : Prop := ∀ τ, t.tick = some τ → τ ≤ now

theorem Past.newTicker {period : Int} {hpos : 0 < period} : (newTicker period hpos now).Past now' :=
  fun _ hτ => nomatch hτ

theorem Past.mono (h : t.Past now) (hle : now ≤ now') : t.Past now' :=
  fun τ hτ => (h τ hτ).trans hle

theorem Past.fire (h : t.Past now) (hle : now ≤ now') (hf : t.fire now' = some t') :
    t'.Past now' := by
  obtain ⟨hdue, htick, -, -⟩ := of_fire hf
  intro τ hτ
  rw [htick] at hτ
  cases htaken : t.tick with
  | none =>
    rw [htaken] at hτ
    cases hτ
    exact hdue
  | some σ =>
    rw [htaken] at hτ
    cases hτ
    exact (h σ htaken).trans hle

theorem Past.recv (hr : t.recv = some (τ, t')) : t'.Past now := by
  obtain ⟨-, rfl⟩ := of_recv hr
  exact nofun

/-! ## Ticks are not late -/

/-- **Nothing is held up for longer than `late`**: neither a tick that is due nor one
that is in the channel. -/
structure Punctual (t : Ticker) (late now : Int) : Prop where
  put : now ≤ t.due + late
  received : ∀ τ, t.tick = some τ → now ≤ τ + late

instance (t : Ticker) (late now : Int) : Decidable (t.Punctual late now) :=
  decidable_of_iff (now ≤ t.due + late ∧ ∀ τ ∈ t.tick, now ≤ τ + late)
    ⟨fun h => ⟨h.1, h.2⟩, fun h => ⟨h.put, h.received⟩⟩

/-- **The last tick received was due at `last`**, and none of the delays since was over
`late`. -/
structure After (t : Ticker) (late last : Int) : Prop where
  empty : t.tick = none → t.due ≤ last + t.period + late
  taken : ∀ τ, t.tick = some τ → τ ≤ last + t.period + late ∧ t.due ≤ τ + t.period + late

theorem After.newTicker {period : Int} {hpos : 0 < period} (hlate : 0 ≤ late) :
    (newTicker period hpos now).After late now :=
  ⟨fun _ => le_add_of_nonneg_right hlate, nofun⟩

/-- A tick is put, or lost. -/
theorem After.fire (h : t.After late last) (hf : t.fire now = some t')
    (hp : t'.Punctual late now) : t'.After late last := by
  obtain ⟨hdue, htick, hperiod, hnext⟩ := of_fire hf
  refine ⟨fun hnone => (Option.some_ne_none _ (htick.symm.trans hnone)).elim, fun τ hτ => ?_⟩
  have hnow : now ≤ τ + late := hp.received τ hτ
  rw [hperiod]
  refine ⟨?_, by omega⟩
  cases htaken : t.tick with
  | none =>
    -- the tick is the one that was due
    have hempty := h.empty htaken
    rw [htick, htaken] at hτ
    cases hτ
    exact hempty
  | some σ =>
    -- the channel is taken, and the tick is lost
    rw [htick, htaken] at hτ
    cases hτ
    exact (h.taken σ htaken).1

theorem After.recv (h : t.After late last) (hr : t.recv = some (τ, t')) : t'.After late τ := by
  obtain ⟨htick, rfl⟩ := of_recv hr
  exact ⟨fun _ => (h.taken τ htick).2, nofun⟩

/-- **The last tick is at most a period and two delays old.** -/
theorem After.now_le (h : t.After late last) (hp : t.Punctual late now) :
    now ≤ last + t.period + 2 * late := by
  cases htick : t.tick with
  | none =>
    have hdue := h.empty htick
    have hput := hp.put
    omega
  | some τ =>
    have hτ := (h.taken τ htick).1
    have hreceived := hp.received τ htick
    omega

end Ticker
