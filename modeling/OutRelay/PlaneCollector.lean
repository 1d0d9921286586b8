import OutRelay.PlaneRelease
import OutRelay.Ticker

/-!
# What the plane keeps

Nobody has to release an allocation: an agent that crashes, or migrates away, leaves
its allocations and its halves of handshakes behind. `gcLoop` is there to clear them
up, woken by a ticker, and this module says how well it does. The machine has the
loop and its ticker beside the operations of the plane. The collection goes by the
time of its tick, while the rest of the plane goes by the clock.

Two things are shown of every run in which no tick is held up for longer than
`late`. An allocation is there no longer than `idleTTL`, a period of the ticker and
two delays after it was last seen, it is never taken away earlier than `idleTTL`, and
the rows of the waiting rooms last as long after they expire
(`CollectorState.reclaimed`). And so the tables never hold more rows than there were
operations in a window of that length: what strangers can make the plane remember is
bounded by the rate at which they can send (`CollectorState.rows_le_lately`).

Both come from one fact about a single operation (`Plane.Stamped`): the rows it leaves
were there before, or are of the one allocation it marks and carry the time.
-/

/-- The period of `gcLoop`: a quarter of the timeout, between 1 s and 5 s. -/
def gcInterval (idleTTL : Time) : Time := min (max (idleTTL.tdiv 4) 1000000000) 5000000000

theorem gcInterval_pos (idleTTL : Time) : 0 < gcInterval idleTTL :=
  lt_min (lt_max_of_lt_right (by decide)) (by decide)

namespace Plane

/-! ## What an operation marks -/

/-- **The allocation that an operation marks**, and the time it puts there. -/
def marks (p : Plane) : PlaneEvent → Option (UInt32 × Time)
  | .allocate _ now => some (nextAllocID p.nextID, now)
  | .armPending id _ _ now => some (id, now)
  | .datagram buf src now _ =>
    match Packet.decode buf with
    | .punch id _ => some (id, now)
    | .data _ _ => (p.src2id.get src).map (fun id => (id, now))
    | .short | .badRegistration => none
  | .forget _ | .forgetAgent _ _ | .gcOnce _ _ _ _ => none

theorem marks_of_punch {p : Plane} {buf : List UInt8} {src : AddrPort} {now now' : Time}
    {id : UInt32} {nonce : Nonce} (h : Packet.decode buf = .punch id nonce) :
    p.marks (.datagram buf src now now') = some (id, now) := by
  simp only [marks, h]

theorem marks_of_data {p : Plane} {buf payload : List UInt8} {src : AddrPort} {now now' : Time}
    {id : UInt32} (h : Packet.decode buf = .data id payload) :
    p.marks (.datagram buf src now now') = (p.src2id.get src).map (fun id => (id, now)) := by
  simp only [marks, h]

/-- **What is in `q` was in `p`, or carries the mark `x`**, not older than `clock`. -/
structure Stamped (p q : Plane) (clock : Time) (x : Option (UInt32 × Time)) : Prop where
  byAlloc : ∀ id entry, q.byAlloc.get id = some entry →
    p.byAlloc.get id = some entry ∨ x = some (id, entry.lastSeen) ∧ clock ≤ entry.lastSeen
  pending : ∀ id pend, q.pending.get id = some pend →
    p.pending.get id = some pend ∨ ∃ τ, x = some (id, τ) ∧ clock ≤ τ ∧ pend.expires = τ + p.ttl
  queued : ∀ id punch, q.queued.get id = some punch →
    p.queued.get id = some punch ∨ ∃ τ, x = some (id, τ) ∧ clock ≤ τ ∧ punch.expires = τ + p.ttl

variable {p q : Plane} {id : UInt32} {now clock : Time} {x : Option (UInt32 × Time)}

theorem Shrinks.stamped (h : Shrinks p q) : Stamped p q clock x :=
  ⟨fun k e hk => Or.inl (h.byAlloc k e hk), fun k r hk => Or.inl (h.pending k r hk),
    fun k r hk => Or.inl (h.queued k r hk)⟩

/-- Binding marks the allocation it binds. -/
theorem stamped_rebind (entry : AllocEntry) (src : AddrPort) (hc : clock ≤ now) :
    Stamped p (p.rebind id entry src now) clock (some (id, now)) where
  byAlloc k e hk := by
    rw [rebind_byAlloc, GoMap.get_set] at hk
    split_ifs at hk with heq
    · cases hk
      exact Or.inr ⟨by rw [heq], hc⟩
    · exact Or.inl hk
  pending k r hk := Or.inl (rebind_pending p id entry src now ▸ hk)
  queued k r hk := Or.inl (rebind_queued p id entry src now ▸ hk)

/-- Deleting rows first, or afterwards, does not matter. -/
theorem Stamped.shrinks_left {p' : Plane} (h : Stamped p' q clock x) (hs : Shrinks p p') :
    Stamped p q clock x := by
  have httl : p'.ttl = p.ttl := by
    unfold ttl
    rw [hs.pendingTTL]
  refine ⟨fun k e hk => ?_, fun k r hk => ?_, fun k r hk => ?_⟩
  · exact (h.byAlloc k e hk).imp_left (hs.byAlloc k e)
  · exact httl ▸ (h.pending k r hk).imp_left (hs.pending k r)
  · exact httl ▸ (h.queued k r hk).imp_left (hs.queued k r)

theorem Stamped.shrinks_right {q' : Plane} (h : Stamped p q clock x) (hs : Shrinks q q') :
    Stamped p q' clock x :=
  ⟨fun k e hk => h.byAlloc k e (hs.byAlloc k e hk),
    fun k r hk => h.pending k r (hs.pending k r hk),
    fun k r hk => h.queued k r (hs.queued k r hk)⟩

theorem stamped_allocate {uri : GoString} (ha : p.allocate uri now = some (q, id))
    (hc : clock ≤ now) : Stamped p q clock (p.marks (.allocate uri now)) := by
  obtain ⟨hid, -, -, hbyAlloc, -, hpending, hqueued⟩ := allocate_byAlloc ha
  refine ⟨fun k e hk => ?_, fun k r hk => Or.inl (hpending ▸ hk),
    fun k r hk => Or.inl (hqueued ▸ hk)⟩
  rw [hbyAlloc, GoMap.get_set] at hk
  split_ifs at hk with heq
  · cases hk
    exact Or.inr ⟨by rw [heq, hid]; rfl, hc⟩
  · exact Or.inl hk

theorem stamped_armPending (p : Plane) (id : UInt32) (uri : GoString) (nonce : Nonce)
    (hc : clock ≤ now) : Stamped p (p.armPending id uri nonce now).fst clock (some (id, now)) := by
  have hdel : Shrinks p { p with queued := p.queued.del id } :=
    ⟨fun _ _ hk => hk, fun _ _ hk => hk, fun _ _ hk => hk, fun _ _ hk => (GoMap.of_get_del hk).1,
      rfl, rfl⟩
  rcases armPending_cases p id uri nonce now with
    ⟨-, heq⟩ | ⟨entry, -, -, -, -, heq | ⟨q, -, -, -, heq⟩⟩
  · rw [heq]
    exact (Shrinks.refl p).stamped
  · rw [heq]
    refine ⟨fun k e hk => Or.inl hk, fun k r hk => ?_, fun k r hk => Or.inl (hdel.queued k r hk)⟩
    rw [GoMap.get_set] at hk
    split_ifs at hk with hid
    · cases hk
      exact Or.inr ⟨now, by rw [hid], hc, rfl⟩
    · exact Or.inl hk
  · rw [heq]
    exact (stamped_rebind entry q.src hc).shrinks_left hdel

theorem stamped_register (p : Plane) (id : UInt32) (src : AddrPort) (nonce : Nonce)
    (now' : Time) (hc : clock ≤ now) :
    Stamped p (p.register id src nonce now now') clock (some (id, now)) := by
  have hdel : ∀ p : Plane, Shrinks p { p with pending := p.pending.del id } := fun p =>
    ⟨fun _ _ hk => hk, fun _ _ hk => hk, fun _ _ hk => (GoMap.of_get_del hk).1, fun _ _ hk => hk,
      rfl, rfl⟩
  rcases register_cases p id src nonce now now' with
    ⟨-, heq⟩ | heq | heq | ⟨pend, entry, -, -, -, -, heq⟩
  · rw [heq]
    refine ⟨fun k e hk => Or.inl hk, fun k r hk => Or.inl hk, fun k r hk => ?_⟩
    rw [GoMap.get_set] at hk
    split_ifs at hk with hid
    · cases hk
      exact Or.inr ⟨now, by rw [hid], hc, rfl⟩
    · exact Or.inl hk
  · rw [heq]
    exact (hdel p).stamped
  · rw [heq]
    exact (Shrinks.refl p).stamped
  · rw [heq, ← rebind_pending p id entry src now]
    exact (stamped_rebind entry src hc).shrinks_right (hdel _)

theorem stamped_touch (p : Plane) (src : AddrPort) (hc : clock ≤ now) :
    Stamped p (p.touch src now) clock ((p.src2id.get src).map (fun id => (id, now))) := by
  unfold touch
  split
  · exact (Shrinks.refl p).stamped
  rename_i k hsrc
  split
  · exact (Shrinks.refl p).stamped
  refine ⟨fun j e hj => ?_, fun j r hj => Or.inl hj, fun j r hj => Or.inl hj⟩
  rw [GoMap.get_set] at hj
  split_ifs at hj with heq
  · cases hj
    exact Or.inr ⟨by rw [hsrc, heq]; rfl, hc⟩
  · exact Or.inl hj

/-! ## The timeouts -/

theorem ttl_pos (p : Plane) : 0 < p.ttl := by
  unfold ttl
  split_ifs with h
  · decide
  · exact not_le.mp h

theorem rebind_idleTTL (p : Plane) (id : UInt32) (entry : AllocEntry) (src : AddrPort)
    (now : Time) : (p.rebind id entry src now).idleTTL = p.idleTTL := by
  unfold rebind
  split_ifs <;> rfl

theorem armPending_idleTTL (p : Plane) (id : UInt32) (uri : GoString) (nonce : Nonce)
    (now : Time) : (p.armPending id uri nonce now).fst.idleTTL = p.idleTTL := by
  rcases armPending_cases p id uri nonce now with
    ⟨-, heq⟩ | ⟨entry, -, -, -, -, heq | ⟨q, -, -, -, heq⟩⟩
  · rw [heq]
  · rw [heq]
  · rw [heq, rebind_idleTTL]

theorem register_idleTTL (p : Plane) (id : UInt32) (src : AddrPort) (nonce : Nonce)
    (now now' : Time) : (p.register id src nonce now now').idleTTL = p.idleTTL := by
  rcases register_cases p id src nonce now now' with
    ⟨-, heq⟩ | heq | heq | ⟨pend, entry, -, -, -, -, heq⟩
  · rw [heq]
  · rw [heq]
  · rw [heq]
  · rw [heq]
    exact rebind_idleTTL p id entry src now

theorem touch_idleTTL (p : Plane) (src : AddrPort) (now : Time) :
    (p.touch src now).idleTTL = p.idleTTL := by
  unfold touch
  split
  · rfl
  · split <;> rfl

theorem forgetAgent_idleTTL (p : Plane) (uri : GoString) (order : List UInt32) :
    (p.forgetAgent uri order).fst.idleTTL = p.idleTTL := by
  have hround : ∀ (acc : Plane × ℕ) (id : UInt32),
      (forgetAgentRound acc id).fst.idleTTL = acc.fst.idleTTL := by
    intro acc id
    unfold forgetAgentRound
    split <;> rfl
  unfold forgetAgent
  split_ifs
  · rfl
  split
  · rfl
  · exact List.foldlRecOn (motive := fun acc : Plane × ℕ => acc.fst.idleTTL = p.idleTTL) order _ rfl
      (fun acc hacc id _ => (hround acc id).trans hacc)

end Plane

namespace PlaneState

variable {s s' : PlaneState} {e : PlaneEvent}

/-- The idle timeout never changes. -/
theorem idleTTL_step (hstep : s.step e = some s') : s'.plane.idleTTL = s.plane.idleTTL := by
  cases e with
  | allocate uri now =>
    simp only [step] at hstep
    split_ifs at hstep
    obtain ⟨⟨q, id⟩, hq, rfl⟩ := Option.map_eq_some_iff.mp hstep
    unfold Plane.allocate at hq
    split_ifs at hq
    cases hq
    rfl
  | armPending id uri nonce now =>
    simp only [step] at hstep
    split_ifs at hstep
    cases hstep
    exact Plane.armPending_idleTTL s.plane id uri nonce now
  | datagram buf src now now' =>
    simp only [step, Plane.recv] at hstep
    split_ifs at hstep
    cases hstep
    cases Packet.decode buf with
    | punch id nonce => exact Plane.register_idleTTL s.plane id src nonce now now'
    | data id payload => exact Plane.touch_idleTTL s.plane src now
    | short | badRegistration => rfl
  | forget id =>
    cases hstep
    dsimp only [Plane.forget]
    split <;> rfl
  | forgetAgent uri order =>
    simp only [step] at hstep
    split_ifs at hstep
    cases hstep
    exact Plane.forgetAgent_idleTTL s.plane uri order
  | gcOnce now allocs pends punches =>
    simp only [step] at hstep
    split_ifs at hstep
    cases hstep
    exact Plane.evictIdle_idleTTL s.plane now allocs

/-- **One operation**: what it leaves was there, or carries its mark. -/
theorem stamped_step (hstep : s.step e = some s') :
    s.plane.Stamped s'.plane s.clock (s.plane.marks e) := by
  rcases step_cases hstep with
    ⟨uri, now, q, id, rfl, ha, hc, rfl⟩ | ⟨id, uri, nonce, now, rfl, hc, rfl⟩
    | ⟨buf, src, now, now', id, nonce, rfl, hdec, -, hc, -, rfl⟩
    | ⟨buf, src, now, now', id, payload, rfl, hdec, -, hc, -, rfl⟩ | ⟨-, hsh, -, -⟩
  · exact Plane.stamped_allocate ha hc
  · exact Plane.stamped_armPending s.plane id uri nonce hc
  · rw [Plane.marks_of_punch hdec]
    exact Plane.stamped_register s.plane id src nonce now' hc
  · rw [Plane.marks_of_data hdec]
    exact Plane.stamped_touch s.plane src hc
  · exact hsh.stamped

end PlaneState

/-! ## The collector -/

/-- The plane with the ticker of `gcLoop`. -/
structure CollectorState where
  core : PlaneState
  ticker : Ticker

/-- An operation of the plane other than `gcOnce`; the ticker fires; `gcLoop` receives
a tick and collects, with the orders of the loops of `gcOnce`. -/
inductive CollectorEvent
  | op (e : PlaneEvent)
  | fire (now : Time)
  | collect (now : Time) (allocs : List (UInt32 × AllocEntry))
      (pends : List (UInt32 × PendingEntry)) (punches : List (UInt32 × QueuedPunch))

/-- Is the operation a collection? -/
def PlaneEvent.isCollection : PlaneEvent → Bool
  | .gcOnce _ _ _ _ => true
  | _ => false

namespace CollectorState

/-- **One step of the plane and its collector.** What `gcOnce` is given is the time of
the tick. -/
def step (s : CollectorState) : CollectorEvent → Option CollectorState
  | .op e =>
    if e.isCollection then none
    else (s.core.step e).map (fun core => ⟨core, s.ticker⟩)
  | .fire now =>
    if s.core.clock ≤ now then
      (s.ticker.fire now).map (fun ticker => ⟨⟨s.core.plane, now⟩, ticker⟩)
    else none
  | .collect now allocs pends punches =>
    if s.core.clock ≤ now then
      s.ticker.recv.bind (fun r =>
        if s.core.plane.GCOrders r.fst allocs pends punches then
          some ⟨⟨s.core.plane.gcOnce r.fst allocs pends punches, now⟩, r.snd⟩
        else none)
    else none

end CollectorState

/-- **The plane under `Run`** with a positive timeout, from time `start`. -/
def collectorMachine (idleTTL pendingTTL start : Time) :
    Machine CollectorState CollectorEvent :=
  ⟨⟨⟨Plane.newPlane idleTTL pendingTTL, start⟩,
    Ticker.newTicker (gcInterval idleTTL) (gcInterval_pos idleTTL) start⟩, CollectorState.step⟩

abbrev CollectorStep := Transition CollectorState CollectorEvent

namespace CollectorState

/-- **What a step can do.** -/
inductive Steps (s : CollectorState) : CollectorEvent → CollectorState → Prop
  | op {e : PlaneEvent} {core : PlaneState} (he : e.isCollection = false)
      (hcore : s.core.step e = some core) : Steps s (.op e) ⟨core, s.ticker⟩
  | fire {now : Time} {ticker : Ticker} (hc : s.core.clock ≤ now)
      (hf : s.ticker.fire now = some ticker) : Steps s (.fire now) ⟨⟨s.core.plane, now⟩, ticker⟩
  | collect {now τ : Time} {ticker : Ticker} {allocs : List (UInt32 × AllocEntry)}
      {pends : List (UInt32 × PendingEntry)} {punches : List (UInt32 × QueuedPunch)}
      (hc : s.core.clock ≤ now) (hr : s.ticker.recv = some (τ, ticker))
      (ho : s.core.plane.GCOrders τ allocs pends punches) :
      Steps s (.collect now allocs pends punches)
        ⟨⟨s.core.plane.gcOnce τ allocs pends punches, now⟩, ticker⟩

variable {s s' : CollectorState} {e : CollectorEvent}

theorem steps_of_step (hstep : s.step e = some s') : s.Steps e s' := by
  cases e with
  | op e =>
    simp only [step] at hstep
    split_ifs at hstep with he
    obtain ⟨core, hcore, rfl⟩ := Option.map_eq_some_iff.mp hstep
    exact .op (Bool.eq_false_iff.mpr he) hcore
  | fire now =>
    simp only [step] at hstep
    split_ifs at hstep with hc
    obtain ⟨ticker, hf, rfl⟩ := Option.map_eq_some_iff.mp hstep
    exact .fire hc hf
  | collect now allocs pends punches =>
    simp only [step] at hstep
    split_ifs at hstep with hc
    obtain ⟨⟨τ, ticker⟩, hr, hstep⟩ := Option.bind_eq_some_iff.mp hstep
    split_ifs at hstep with ho
    cases hstep
    exact .collect hc hr ho

/-- The clock never goes back. -/
theorem clock_le_of_steps (hstep : s.Steps e s') : s.core.clock ≤ s'.core.clock := by
  cases hstep with
  | op he hcore => exact PlaneState.clock_le_of_step hcore
  | fire hc hf => exact hc
  | collect hc hr ho => exact hc

/-- The tick that a step collects. -/
def sweptAt (t : CollectorStep) : Option Time :=
  match t.ev with
  | .collect _ _ _ _ => t.pre.ticker.tick
  | _ => none

/-- The tick of the last collection, or the start. -/
def lastSwept (start : Time) (h : List CollectorStep) : Time := (h.filterMap sweptAt).getLastD start

theorem lastSwept_snoc {start : Time} {h : List CollectorStep} {t : CollectorStep} :
    lastSwept start (h ++ [t]) = (sweptAt t).getD (lastSwept start h) := by
  unfold lastSwept
  rw [List.filterMap_append, List.filterMap_cons]
  cases sweptAt t with
  | none => rw [List.filterMap_nil, List.append_nil]; rfl
  | some τ => exact List.getLastD_concat ..

/-! ## How long rows are kept -/

end CollectorState

namespace Plane

/-- **What is in the tables was not due for collection at `g`.** -/
structure KeptAt (p : Plane) (g : Time) : Prop where
  byAlloc : ∀ id entry, p.byAlloc.get id = some entry → g ≤ entry.lastSeen + p.idleTTL
  pending : ∀ id pend, p.pending.get id = some pend → g ≤ pend.expires
  queued : ∀ id punch, p.queued.get id = some punch → g ≤ punch.expires

variable {p q : Plane} {g clock τ : Time} {x : Option (UInt32 × Time)}

/-- Operations at a time after `g` leave nothing older than `g`. -/
theorem KeptAt.stamped (h : p.KeptAt g) (hst : Stamped p q clock x)
    (hidle : q.idleTTL = p.idleTTL) (hpos : 0 ≤ p.idleTTL) (hg : g ≤ clock) : q.KeptAt g := by
  refine ⟨fun k e hk => ?_, fun k r hk => ?_, fun k r hk => ?_⟩
  · rw [hidle]
    rcases hst.byAlloc k e hk with hold | ⟨-, hnew⟩
    · exact h.byAlloc k e hold
    · exact hg.trans (hnew.trans (le_add_of_nonneg_right hpos))
  · rcases hst.pending k r hk with hold | ⟨τ, -, hnew, hexp⟩
    · exact h.pending k r hold
    · exact hexp ▸ hg.trans (hnew.trans (le_add_of_nonneg_right p.ttl_pos.le))
  · rcases hst.queued k r hk with hold | ⟨τ, -, hnew, hexp⟩
    · exact h.queued k r hold
    · exact hexp ▸ hg.trans (hnew.trans (le_add_of_nonneg_right p.ttl_pos.le))

/-- A collection leaves nothing older than its tick. -/
theorem keptAt_gcOnce {allocs : List (UInt32 × AllocEntry)} {pends : List (UInt32 × PendingEntry)}
    {punches : List (UInt32 × QueuedPunch)} (ho : p.GCOrders τ allocs pends punches) :
    (p.gcOnce τ allocs pends punches).KeptAt τ := by
  have hfilter : ∀ {α : Type} (f : α → Time) {o : Option α} {r : α},
      o.filter (fun y => τ ≤ f y) = some r → τ ≤ f r := fun f _ _ h =>
    of_decide_eq_true (Option.filter_eq_some_iff.mp h).2
  refine ⟨fun k e hk => ?_, fun k r hk => ?_, fun k r hk => ?_⟩
  · have hold := (shrinks_gcOnce p τ allocs pends punches).byAlloc k e hk
    rw [gcOnce_byAlloc ho.1 hold] at hk
    split_ifs at hk with hidle
    rw [show (p.gcOnce τ allocs pends punches).idleTTL = p.idleTTL from
      evictIdle_idleTTL p τ allocs]
    exact sub_le_iff_le_add.mp (not_lt.mp hidle)
  · exact hfilter PendingEntry.expires ((get_sweep _ _ ho.2.1 k).symm.trans hk)
  · exact hfilter QueuedPunch.expires ((get_sweep _ _ ho.2.2 k).symm.trans hk)

end Plane

namespace CollectorState

variable {s s' : CollectorState} {e : CollectorEvent} {idleTTL pendingTTL start late : Time}
  {h : List CollectorStep}

/-- What holds whatever is held up: the timeouts are the ones set, and a tick is not
received before it is due. -/
structure Sound (idleTTL : Time) (s : CollectorState) : Prop where
  timeout : s.core.plane.idleTTL = idleTTL
  period : s.ticker.period = gcInterval idleTTL
  past : s.ticker.Past s.core.clock

theorem Sound.step (hs : s.Sound idleTTL) (hstep : s.Steps e s') : s'.Sound idleTTL := by
  have hclock := clock_le_of_steps hstep
  cases hstep with
  | op he hcore =>
    exact ⟨(PlaneState.idleTTL_step hcore).trans hs.timeout, hs.period, hs.past.mono hclock⟩
  | fire hc hf =>
    exact ⟨hs.timeout, (Ticker.of_fire hf).2.2.1.trans hs.period, hs.past.fire hc hf⟩
  | @collect now τ ticker allocs pends punches hc hr ho =>
    refine ⟨?_, ?_, Ticker.Past.recv hr⟩
    · exact (Plane.evictIdle_idleTTL s.core.plane τ allocs).trans hs.timeout
    · rw [(Ticker.of_recv hr).2]
      exact hs.period

theorem sound_of_reachable (hs : (collectorMachine idleTTL pendingTTL start).Reachable s) :
    s.Sound idleTTL :=
  hs.invariant (I := Sound idleTTL) ⟨rfl, rfl, Ticker.Past.newTicker⟩
    (fun _ hI hstep => hI.step (steps_of_step hstep))

/-- No tick has been held up for longer than `late`. -/
def Punctual (late : Time) (h : List CollectorStep) : Prop :=
  ∀ t ∈ h, t.post.ticker.Punctual late t.post.core.clock

/-- **What the last collection has left**, on a run on which nothing is held up. -/
structure Swept (late g : Time) (s : CollectorState) : Prop where
  kept : s.core.plane.KeptAt g
  le_clock : g ≤ s.core.clock
  after : s.ticker.After late g

theorem Swept.step {g : Time} (hS : s.Swept late g) (hs : s.Sound idleTTL) (hpos : 0 ≤ idleTTL)
    (hstep : s.Steps e s') (hp : s'.ticker.Punctual late s'.core.clock) :
    s'.Swept late ((sweptAt ⟨s, e, s'⟩).getD g) := by
  have hclock := hS.le_clock.trans (clock_le_of_steps hstep)
  cases hstep with
  | op he hcore =>
    refine ⟨?_, hclock, hS.after⟩
    exact hS.kept.stamped (PlaneState.stamped_step hcore) (PlaneState.idleTTL_step hcore)
      (hs.timeout ▸ hpos) hS.le_clock
  | fire hc hf => exact ⟨hS.kept, hclock, hS.after.fire hf hp⟩
  | @collect now τ ticker allocs pends punches hc hr ho =>
    have htick := (Ticker.of_recv hr).1
    rw [show sweptAt ⟨s, .collect now allocs pends punches, _⟩ = some τ from htick]
    exact ⟨Plane.keptAt_gcOnce ho, (hs.past τ htick).trans hc, hS.after.recv hr⟩

theorem swept_of_exec (hpos : 0 ≤ idleTTL) (hlate : 0 ≤ late)
    (hx : (collectorMachine idleTTL pendingTTL start).Exec h s) (hp : Punctual late h) :
    s.Swept late (lastSwept start h) := by
  induction hx with
  | nil => exact ⟨⟨nofun, nofun, nofun⟩, le_rfl, Ticker.After.newTicker hlate⟩
  | snoc hx hstep ih =>
    unfold Punctual at hp
    rw [List.forall_mem_append, List.forall_mem_singleton] at hp
    rw [lastSwept_snoc]
    exact (ih hp.1).step (sound_of_reachable ⟨_, hx⟩) hpos (steps_of_step hstep) hp.2

/-- The age of what a collection has left. -/
theorem clock_le_lastSwept (hpos : 0 ≤ idleTTL) (hlate : 0 ≤ late)
    (hx : (collectorMachine idleTTL pendingTTL start).Exec h s) (hp : Punctual late h) :
    s.core.clock ≤ lastSwept start h + gcInterval idleTTL + 2 * late := by
  have hafter := (swept_of_exec hpos hlate hx hp).after
  cases hx with
  | nil =>
    have hperiod := gcInterval_pos idleTTL
    show start ≤ start + gcInterval idleTTL + 2 * late
    linarith
  | snoc hx hstep =>
    rw [← (sound_of_reachable ⟨_, hx.snoc hstep⟩).period]
    exact hafter.now_le (hp _ (List.mem_append_right _ (List.mem_singleton_self _)))

/-- **Nothing is kept for long, and no allocation is taken away early.** If no tick is
held up for longer than `late`, an allocation is kept for no longer than `idleTTL`, one
period of the ticker and two delays after it was last seen, and a row of a waiting room
for no longer than the period and the delays after it expired. An allocation that a
collection takes away was not seen for longer than `idleTTL`. -/
theorem reclaimed (hpos : 0 < idleTTL) (hlate : 0 ≤ late)
    (hx : (collectorMachine idleTTL pendingTTL start).Exec h s) (hp : Punctual late h) :
    (∀ id entry, s.core.plane.byAlloc.get id = some entry →
        s.core.clock ≤ entry.lastSeen + idleTTL + gcInterval idleTTL + 2 * late)
      ∧ (∀ id pend, s.core.plane.pending.get id = some pend →
        s.core.clock ≤ pend.expires + gcInterval idleTTL + 2 * late)
      ∧ (∀ id punch, s.core.plane.queued.get id = some punch →
        s.core.clock ≤ punch.expires + gcInterval idleTTL + 2 * late)
      ∧ ∀ t ∈ h, (sweptAt t).isSome = true → ∀ id entry,
        t.pre.core.plane.byAlloc.get id = some entry →
        t.post.core.plane.byAlloc.get id = none → entry.lastSeen + idleTTL < t.post.core.clock := by
  have hclock := clock_le_lastSwept hpos.le hlate hx hp
  have hkept := (swept_of_exec hpos.le hlate hx hp).kept
  refine ⟨fun id entry hid => ?_, fun id pend hid => ?_, fun id punch hid => ?_,
    fun t ht hcollect id entry hid hgone => ?_⟩
  · have hage := hkept.byAlloc id entry hid
    rw [(sound_of_reachable ⟨h, hx⟩).timeout] at hage
    linarith
  · have hage := hkept.pending id pend hid
    linarith
  · have hage := hkept.queued id punch hid
    linarith
  · obtain ⟨hpre, hstep⟩ := hx.step_of_mem ht
    have hsound := sound_of_reachable hpre
    obtain ⟨s, e, s'⟩ := t
    have hstep : s.Steps e s' := steps_of_step hstep
    cases hstep with
    | op he hcore => cases hcollect
    | fire hc hf => cases hcollect
    | @collect now τ ticker allocs pends punches hc hr ho =>
      have hgone : (s.core.plane.gcOnce τ allocs pends punches).byAlloc.get id = none := hgone
      rw [Plane.gcOnce_byAlloc ho.1 hid] at hgone
      split_ifs at hgone with hidle
      have hτ : τ ≤ s.core.clock := hsound.past τ (Ticker.of_recv hr).1
      rw [hsound.timeout] at hidle
      show entry.lastSeen + idleTTL < now
      exact (lt_sub_iff_add_lt.mp hidle).trans_le (hτ.trans hc)

/-- An allocation that falls idle, and one issued later. -/
def sweepTwice : List CollectorEvent :=
  [.op (.allocate (go "c1") 0), .fire 1000000000,
    .collect 1000000000 [(1, ⟨go "c1", AddrPort.zero, 0⟩)] [] [],
    .op (.allocate (go "c2") 1500000000), .fire 2000000000,
    .collect 2000000000 [(1, ⟨go "c1", AddrPort.zero, 0⟩),
      (2, ⟨go "c2", AddrPort.zero, 1500000000⟩)] [] []]

/-- No tick is held up, and the second allocation is kept. -/
theorem exists_sweepTwice : ∃ h s entry, (collectorMachine 1000000000 0 0).Exec h s
    ∧ h.map Transition.ev = sweepTwice ∧ Punctual 0 h
    ∧ s.core.plane.byAlloc.get 2 = some entry := by
  let M := collectorMachine 1000000000 0 0
  obtain ⟨s₁, s₂, s₃, s₄, s₅, s₆, entry, h₁, h₂, h₃, h₄, h₅, h₆, hp, hentry⟩ :
      ∃ s₁ s₂ s₃ s₄ s₅ s₆ entry,
        M.step M.init (.op (.allocate (go "c1") 0)) = some s₁
        ∧ M.step s₁ (.fire 1000000000) = some s₂
        ∧ M.step s₂ (.collect 1000000000 [(1, ⟨go "c1", AddrPort.zero, 0⟩)] [] []) = some s₃
        ∧ M.step s₃ (.op (.allocate (go "c2") 1500000000)) = some s₄
        ∧ M.step s₄ (.fire 2000000000) = some s₅
        ∧ M.step s₅ (.collect 2000000000 [(1, ⟨go "c1", AddrPort.zero, 0⟩),
          (2, ⟨go "c2", AddrPort.zero, 1500000000⟩)] [] []) = some s₆
        ∧ (∀ s ∈ [s₁, s₂, s₃, s₄, s₅, s₆], s.ticker.Punctual 0 s.core.clock)
        ∧ s₆.core.plane.byAlloc.get 2 = some entry :=
    ⟨_, _, _, _, _, _, _, rfl, rfl, rfl, rfl, rfl, rfl, by decide, rfl⟩
  have hx := (((((Machine.Exec.nil.snoc h₁).snoc h₂).snoc h₃).snoc h₄).snoc h₅).snoc h₆
  exact ⟨_, s₆, entry, hx, rfl,
    fun t ht => hp t.post (List.mem_map_of_mem (f := Transition.post) ht), hentry⟩

theorem reclaimed_second : ∃ h s entry, (collectorMachine 1000000000 0 0).Exec h s
    ∧ h.map Transition.ev = sweepTwice ∧ s.core.plane.byAlloc.get 2 = some entry
    ∧ s.core.clock ≤ entry.lastSeen + 1000000000 + gcInterval 1000000000 + 2 * 0 := by
  obtain ⟨h, s, entry, hx, hev, hp, hentry⟩ := exists_sweepTwice
  exact ⟨h, s, entry, hx, hev, hentry, (reclaimed (by decide) le_rfl hx hp).1 2 entry hentry⟩

/-! ## How many rows are kept -/

/-- The allocation that a step marks. -/
def markedBy (t : CollectorStep) : Option (UInt32 × Time) :=
  match t.ev with
  | .op e => t.pre.core.plane.marks e
  | _ => none

/-- The number of operations in the last `w`, up to `now`. -/
def lately (w now : Time) (h : List CollectorStep) : ℕ :=
  (h.filterMap markedBy).countP (fun x => now ≤ x.snd + w)

/-- **Every row carries the mark of an operation.** -/
structure Marked (ttl : Time) (h : List CollectorStep) (p : Plane) : Prop where
  timeout : p.ttl = ttl
  byAlloc : ∀ id entry, p.byAlloc.get id = some entry → (id, entry.lastSeen) ∈ h.filterMap markedBy
  pending : ∀ id pend, p.pending.get id = some pend →
    (id, pend.expires - ttl) ∈ h.filterMap markedBy
  queued : ∀ id punch, p.queued.get id = some punch →
    (id, punch.expires - ttl) ∈ h.filterMap markedBy

theorem Marked.stamped {ttl c : Time} {p q : Plane} {t : CollectorStep}
    (hM : Marked ttl h p) (hst : p.Stamped q c (markedBy t)) (httl : q.ttl = p.ttl) :
    Marked ttl (h ++ [t]) q := by
  have hold : ∀ {x}, x ∈ h.filterMap markedBy → x ∈ (h ++ [t]).filterMap markedBy := fun hx => by
    rw [List.filterMap_append]
    exact List.mem_append_left _ hx
  have hnew : ∀ {x}, markedBy t = some x → x ∈ (h ++ [t]).filterMap markedBy := fun hx =>
    List.mem_filterMap.mpr ⟨t, List.mem_append_right _ (List.mem_singleton_self t), hx⟩
  refine ⟨httl.trans hM.timeout, fun id entry hid => ?_, fun id pend hid => ?_,
    fun id punch hid => ?_⟩
  · rcases hst.byAlloc id entry hid with hid | ⟨hmark, -⟩
    · exact hold (hM.byAlloc id entry hid)
    · exact hnew hmark
  · rcases hst.pending id pend hid with hid | ⟨τ, hmark, -, hexp⟩
    · exact hold (hM.pending id pend hid)
    · rw [hexp, hM.timeout, add_sub_cancel_right]
      exact hnew hmark
  · rcases hst.queued id punch hid with hid | ⟨τ, hmark, -, hexp⟩
    · exact hold (hM.queued id punch hid)
    · rw [hexp, hM.timeout, add_sub_cancel_right]
      exact hnew hmark

theorem marked_of_exec (hx : (collectorMachine idleTTL pendingTTL start).Exec h s) :
    Marked (Plane.newPlane idleTTL pendingTTL).ttl h s.core.plane := by
  induction hx with
  | nil => exact ⟨rfl, nofun, nofun, nofun⟩
  | @snoc h s s' e hx hstep ih =>
    have hstep : s.Steps e s' := steps_of_step hstep
    cases hstep with
    | op he hcore => exact ih.stamped (PlaneState.stamped_step hcore) (PlaneState.ttl_step hcore)
    | fire hc hf =>
      exact ih.stamped (c := 0) (Plane.Shrinks.refl _).stamped rfl
    | @collect now τ ticker allocs pends punches hc hr ho =>
      have hsh := Plane.shrinks_gcOnce s.core.plane τ allocs pends punches
      refine ih.stamped (c := 0) hsh.stamped ?_
      unfold Plane.ttl
      rw [hsh.pendingTTL]

/-- Rows that carry marks of the last `w` are no more than the operations of that
time. -/
theorem len_le_lately {ν : Type} {m : GoMap UInt32 ν} {w now : Time} (mark : ν → Time)
    (hm : ∀ id v, m.get id = some v → (id, mark v) ∈ h.filterMap markedBy)
    (hw : ∀ id v, m.get id = some v → now ≤ mark v + w) : m.len ≤ lately w now h := by
  unfold lately
  rw [List.countP_eq_length_filter, ← List.length_map Prod.fst]
  refine GoMap.len_le_length fun id v hid => ?_
  exact List.mem_map_of_mem (f := Prod.fst)
    (List.mem_filter.mpr ⟨hm id v hid, decide_eq_true (hw id v hid)⟩)

/-- **The tables hold no more rows than there were operations lately.** If no tick is
held up for longer than `late`, the live allocations are at most as many as the
operations of the last `idleTTL`, one period of the ticker and two delays, and the
armed nonces and the queued punches at most as many as those of the time-to-live of
the handshake, the period and the delays. -/
theorem rows_le_lately (hpos : 0 < idleTTL) (hlate : 0 ≤ late)
    (hx : (collectorMachine idleTTL pendingTTL start).Exec h s) (hp : Punctual late h) :
    s.core.plane.byAlloc.len ≤ lately (idleTTL + gcInterval idleTTL + 2 * late) s.core.clock h
      ∧ s.core.plane.pending.len
        ≤ lately (s.core.plane.ttl + gcInterval idleTTL + 2 * late) s.core.clock h
      ∧ s.core.plane.queued.len
        ≤ lately (s.core.plane.ttl + gcInterval idleTTL + 2 * late) s.core.clock h := by
  have hM := marked_of_exec hx
  have hclock := clock_le_lastSwept hpos.le hlate hx hp
  have hkept := (swept_of_exec hpos.le hlate hx hp).kept
  rw [hM.timeout]
  refine ⟨len_le_lately AllocEntry.lastSeen hM.byAlloc fun id entry hid => ?_,
    len_le_lately _ hM.pending fun id pend hid => ?_,
    len_le_lately _ hM.queued fun id punch hid => ?_⟩
  · have hage := hkept.byAlloc id entry hid
    rw [(sound_of_reachable ⟨h, hx⟩).timeout] at hage
    linarith
  · have hage := hkept.pending id pend hid
    linarith
  · have hage := hkept.queued id punch hid
    linarith

theorem rows_le_lately_second : ∃ h s, (collectorMachine 1000000000 0 0).Exec h s
    ∧ h.map Transition.ev = sweepTwice
    ∧ s.core.plane.byAlloc.len
      ≤ lately (1000000000 + gcInterval 1000000000 + 2 * 0) s.core.clock h := by
  obtain ⟨h, s, -, hx, hev, hp, -⟩ := exists_sweepTwice
  exact ⟨h, s, hx, hev, (rows_le_lately (by decide) le_rfl hx hp).1⟩

end CollectorState
