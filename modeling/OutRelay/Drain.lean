import Mathlib.Data.Finset.Basic
import OutRelay.Fleet
import OutRelay.Run

/-!
# Draining a relay

`Drain` looks at the live set several times: once for the agents it sends a
GOAWAY to, and then in every round of its poll. Meanwhile agents come and go –
the relay keeps accepting while it drains.

The module models the steps of `Drain` and those of the agents, and numbers the
agents in the order in which they are tracked. A drain tells the agents of its
first look, and closes those of its latest one (`DrainLog.Covers`); an agent that
joins between the two is closed without having been told, and one that joins
after the latest is still there at the end. What a drain promises about the links
it closes, and about those it leaves, is therefore a matter of the numbers at
those two looks (`drainSound_iff`).
-/

/-- `orpv1.Goaway`, as `Drain` fills it. -/
structure Goaway where
  targetEndpoints : List GoString
  reason : GoString
  deadlineMs : UInt32
  deriving DecidableEq

/-- The milliseconds of a deadline in nanoseconds, clamped from above and converted
to `uint32`. -/
def deadlineMs (deadline : Int) : UInt32 :=
  UInt32.ofInt (min (deadline.tdiv 1000000) 4294967295)

/-- Where a call of `Drain` is. An agent is its number. -/
inductive DrainPC
  | idle
  /-- Called, before the targets are settled. -/
  | called (targets : List GoString) (reason : GoString) (deadline : Int)
  /-- Before the first `liveAgents`. -/
  | begun (g : Goaway)
  /-- In the loop over the agents it found, with those still to be told. -/
  | sending (g : Goaway) (todo : List ℕ)
  /-- Before a `liveAgents` of the poll. -/
  | polling (g : Goaway)
  /-- In the `select`. -/
  | waiting (g : Goaway) (remaining : List ℕ)
  /-- Past the deadline, with the links still to be closed. -/
  | closing (g : Goaway) (todo : List ℕ)
  /-- Past a poll that found no agent. -/
  | leaving (g : Goaway)
  | returned (cancelled : Bool)

/-- The record of a drain, which no step reads: its GOAWAYs, the agents it could
not write to, those whose link it has closed, and how many agents there had been
at its first and at its latest look at the live set. -/
structure DrainLog where
  sent : List (ℕ × Goaway)
  failed : Finset ℕ
  closed : Finset ℕ
  first : ℕ
  last : ℕ

/-- `Server`, as far as `Drain` is concerned, and the call of it: `agents` are the
tracked ones, of the `next` there have been so far. -/
structure DrainState where
  adverts : AdvertServer
  agents : Finset ℕ
  next : ℕ
  log : DrainLog
  pc : DrainPC

/-- A step of the agents (`trackAgent`, `untrackAgent`), of the fleet refresh
(`SetSuccessors`), or of `Drain`. A look at the live set carries the order in
which `liveAgents` lists it, a GOAWAY whether the write went through. -/
inductive DrainEvent
  | track
  | untrack (a : ℕ)
  | setSuccessors (endpoints : List GoString)
  | drain (targets : List GoString) (reason : GoString) (deadline : Int)
  | resolve
  | snapshot (order : List ℕ)
  | goaway (ok : Bool)
  | notified
  | poll (order : List ℕ)
  | tick
  | cancel
  | timeout
  | close
  | ret

namespace DrainState

/-- `order` is one in which `liveAgents` may list the live set. -/
def Lists (s : DrainState) (order : List ℕ) : Prop := order.Nodup ∧ order.toFinset = s.agents

instance (s : DrainState) (order : List ℕ) : Decidable (s.Lists order) :=
  inferInstanceAs (Decidable (_ ∧ _))

/-- **One step.** -/
def step (s : DrainState) : DrainEvent → Option DrainState
  | .track => some { s with agents := insert s.next s.agents, next := s.next + 1 }
  | .untrack a => if a ∈ s.agents then some { s with agents := s.agents.erase a } else none
  | .setSuccessors endpoints => some { s with adverts := s.adverts.setSuccessors endpoints }
  | .drain targets reason deadline =>
    match s.pc with
    | .idle | .returned _ =>
      some { s with
        log := ⟨[], ∅, ∅, 0, 0⟩
        pc := .called targets reason deadline }
    | _ => none
  | .resolve =>
    match s.pc with
    | .called targets reason deadline =>
      let targets := if targets.length = 0 then s.adverts.successors else targets
      some { s with pc := .begun ⟨targets, reason, deadlineMs deadline⟩ }
    | _ => none
  | .snapshot order =>
    match s.pc with
    | .begun g =>
      if s.Lists order then
        some { s with
          log := { s.log with first := s.next, last := s.next }
          pc := .sending g order }
      else none
    | _ => none
  | .goaway ok =>
    match s.pc with
    | .sending g (a :: todo) =>
      if ok then
        some { s with
          log := { s.log with sent := s.log.sent ++ [(a, g)] }
          pc := .sending g todo }
      else
        some { s with
          log := { s.log with failed := insert a s.log.failed, closed := insert a s.log.closed }
          pc := .sending g todo }
    | _ => none
  | .notified =>
    match s.pc with
    | .sending g [] => some { s with pc := .polling g }
    | _ => none
  | .poll order =>
    match s.pc with
    | .polling g =>
      if s.Lists order then
        some { s with
          log := { s.log with last := s.next }
          pc := if order.length = 0 then .leaving g else .waiting g order }
      else none
    | _ => none
  | .tick =>
    match s.pc with
    | .waiting g _ => some { s with pc := .polling g }
    | _ => none
  | .cancel =>
    match s.pc with
    | .waiting _ _ => some { s with pc := .returned true }
    | _ => none
  | .timeout =>
    match s.pc with
    | .waiting g remaining => some { s with pc := .closing g remaining }
    | _ => none
  | .close =>
    match s.pc with
    | .closing g (a :: todo) =>
      some { s with
        log := { s.log with closed := insert a s.log.closed }
        pc := .closing g todo }
    | _ => none
  | .ret =>
    match s.pc with
    | .leaving _ => some { s with pc := .returned false }
    | .closing _ [] => some { s with pc := .returned false }
    | _ => none

end DrainState

/-- **A server that advertises `successors` and drains.** -/
def drainMachine (successors : List GoString) : Machine DrainState DrainEvent :=
  ⟨⟨⟨successors⟩, ∅, 0, ⟨[], ∅, ∅, 0, 0⟩, .idle⟩, DrainState.step⟩

/-! ## What a drain has covered -/

namespace DrainLog

variable {l : DrainLog} {g : Goaway} {agents agents' : Finset ℕ} {pc : DrainPC}

/-- A GOAWAY went to `b`, or the write of it failed. -/
def Told (l : DrainLog) (g : Goaway) (b : ℕ) : Prop := b ∈ l.failed ∨ (b, g) ∈ l.sent

/-- All GOAWAYs are `g`; a drain tells agents of its first look, and closes agents
of a look. -/
structure Records (l : DrainLog) (g : Goaway) : Prop where
  sent : ∀ b g', (b, g') ∈ l.sent → g' = g ∧ b < l.first
  failed : ∀ b ∈ l.failed, b < l.first
  closed : ∀ b ∈ l.closed, b < l.last
  le : l.first ≤ l.last

/-- A look has found these agents, and has told them if they are old enough for the
first. -/
def Found (l : DrainLog) (g : Goaway) (found : List ℕ) : Prop :=
  ∀ b ∈ found, b < l.last ∧ (b < l.first → l.Told g b)

/-- **What a drain has covered**, at each point of it. -/
def Covers (l : DrainLog) (agents : Finset ℕ) : DrainPC → Prop
  | .called _ _ _ | .begun _ => l.sent = [] ∧ l.failed = ∅ ∧ l.closed = ∅
  | .sending g todo => l.Records g ∧ (∀ b ∈ todo, b < l.first)
      ∧ ∀ b ∈ agents, b < l.first → b ∈ todo ∨ l.Told g b
  | .polling g => l.Records g ∧ ∀ b ∈ agents, b < l.first → l.Told g b
  | .waiting g remaining => l.Records g ∧ l.Found g remaining
      ∧ (∀ b ∈ agents, b < l.first → l.Told g b) ∧ ∀ b ∈ agents, b < l.last → b ∈ remaining
  | .closing g todo => l.Records g ∧ l.Found g todo
      ∧ ∀ b ∈ agents, b < l.last → b ∈ todo ∨ b ∈ l.closed
  | .leaving g => l.Records g ∧ ∀ b ∈ agents, b < l.last → b ∈ l.closed
  | .idle | .returned _ => True

/-- Agents that come and go take nothing away from it: those that come are too new
for either look. -/
theorem Covers.of_agents (h : l.Covers agents pc)
    (hold : ∀ b ∈ agents', b < l.last → b ∈ agents) : l.Covers agents' pc := by
  cases pc with
  | idle => trivial
  | called targets reason deadline => exact h
  | begun g => exact h
  | sending g todo =>
    obtain ⟨hrec, htodo, htold⟩ := h
    exact ⟨hrec, htodo, fun b hb hlt => htold b (hold b hb (hlt.trans_le hrec.le)) hlt⟩
  | polling g =>
    obtain ⟨hrec, htold⟩ := h
    exact ⟨hrec, fun b hb hlt => htold b (hold b hb (hlt.trans_le hrec.le)) hlt⟩
  | waiting g remaining =>
    obtain ⟨hrec, hfound, htold, hrem⟩ := h
    exact ⟨hrec, hfound, fun b hb hlt => htold b (hold b hb (hlt.trans_le hrec.le)) hlt,
      fun b hb hlt => hrem b (hold b hb hlt) hlt⟩
  | closing g todo =>
    obtain ⟨hrec, hfound, hclosed⟩ := h
    exact ⟨hrec, hfound, fun b hb hlt => hclosed b (hold b hb hlt) hlt⟩
  | leaving g =>
    obtain ⟨hrec, hclosed⟩ := h
    exact ⟨hrec, fun b hb hlt => hclosed b (hold b hb hlt) hlt⟩
  | returned cancelled => trivial

/-- The first look finds every agent there is. -/
theorem Covers.snapshot (h : l.Covers agents (.begun g)) {order : List ℕ} {n : ℕ}
    (hset : order.toFinset = agents) (hn : ∀ b ∈ agents, b < n) :
    { l with first := n, last := n }.Covers agents (.sending g order) := by
  obtain ⟨hsent, hfailed, hclosed⟩ := h
  have hmem : ∀ {b}, b ∈ order ↔ b ∈ agents := by
    intro b
    rw [← hset, List.mem_toFinset]
  refine ⟨⟨fun b g' hb => ?_, fun b hb => ?_, fun b hb => ?_, le_rfl⟩,
    fun b hb => hn b (hmem.mp hb), fun b hb _ => Or.inl (hmem.mpr hb)⟩
  · have hb : (b, g') ∈ l.sent := hb
    rw [hsent] at hb
    exact absurd hb List.not_mem_nil
  · have hb : b ∈ l.failed := hb
    rw [hfailed] at hb
    exact absurd hb (Finset.notMem_empty b)
  · have hb : b ∈ l.closed := hb
    rw [hclosed] at hb
    exact absurd hb (Finset.notMem_empty b)

/-- The next agent has been told, one way or the other. -/
theorem Covers.told {l' : DrainLog} {a : ℕ} {todo : List ℕ}
    (h : l.Covers agents (.sending g (a :: todo))) (hrec : l'.Records g)
    (hfirst : l'.first = l.first) (ha : l'.Told g a) (hmono : ∀ b, l.Told g b → l'.Told g b) :
    l'.Covers agents (.sending g todo) := by
  obtain ⟨-, htodo, htold⟩ := h
  rw [List.forall_mem_cons] at htodo
  refine ⟨hrec, fun b hb => hfirst ▸ htodo.2 b hb, fun b hb hlt => ?_⟩
  rcases htold b hb (hfirst ▸ hlt) with hmem | hb
  · rcases List.mem_cons.mp hmem with rfl | hmem
    · exact Or.inr ha
    · exact Or.inl hmem
  · exact Or.inr (hmono b hb)

theorem Covers.sent {a : ℕ} {todo : List ℕ} (h : l.Covers agents (.sending g (a :: todo))) :
    { l with sent := l.sent ++ [(a, g)] }.Covers agents (.sending g todo) := by
  have ha : a < l.first := h.2.1 a List.mem_cons_self
  refine h.told ⟨fun b g' hb => ?_, h.1.failed, h.1.closed, h.1.le⟩ rfl
    (Or.inr (List.mem_append_right _ (List.mem_singleton_self _)))
    (fun b hb => hb.imp_right (List.mem_append_left _))
  rcases List.mem_append.mp hb with hb | hb
  · exact h.1.sent b g' hb
  · cases List.mem_singleton.mp hb
    exact ⟨rfl, ha⟩

theorem Covers.failed {a : ℕ} {todo : List ℕ} (h : l.Covers agents (.sending g (a :: todo))) :
    { l with failed := insert a l.failed, closed := insert a l.closed }.Covers agents
      (.sending g todo) := by
  have ha : a < l.first := h.2.1 a List.mem_cons_self
  refine h.told ⟨h.1.sent, fun b hb => ?_, fun b hb => ?_, h.1.le⟩ rfl
    (Or.inl (Finset.mem_insert_self a _)) (fun b hb => hb.imp_left Finset.mem_insert_of_mem)
  · rcases Finset.mem_insert.mp hb with rfl | hb
    · exact ha
    · exact h.1.failed b hb
  · rcases Finset.mem_insert.mp hb with rfl | hb
    · exact ha.trans_le h.1.le
    · exact h.1.closed b hb

/-- A later look finds every agent there is. -/
theorem Covers.poll (h : l.Covers agents (.polling g)) {order : List ℕ} {n : ℕ}
    (hset : order.toFinset = agents) (hn : ∀ b ∈ agents, b < n) (hle : l.last ≤ n) :
    { l with last := n }.Covers agents
      (if order.length = 0 then .leaving g else .waiting g order) := by
  obtain ⟨hrec, htold⟩ := h
  have hmem : ∀ {b}, b ∈ order ↔ b ∈ agents := by
    intro b
    rw [← hset, List.mem_toFinset]
  have hrec' : { l with last := n }.Records g :=
    ⟨hrec.sent, hrec.failed, fun b hb => (hrec.closed b hb).trans_le hle, hrec.le.trans hle⟩
  split_ifs with hempty
  · refine ⟨hrec', fun b hb _ => ?_⟩
    rw [← hmem, List.eq_nil_of_length_eq_zero hempty] at hb
    exact absurd hb List.not_mem_nil
  · exact ⟨hrec', fun b hb => ⟨hn b (hmem.mp hb), htold b (hmem.mp hb)⟩, htold,
      fun b hb _ => hmem.mpr hb⟩

theorem Covers.close {a : ℕ} {todo : List ℕ} (h : l.Covers agents (.closing g (a :: todo))) :
    { l with closed := insert a l.closed }.Covers agents (.closing g todo) := by
  obtain ⟨hrec, hfound, hclosed⟩ := h
  have ha := (hfound a List.mem_cons_self).1
  refine ⟨⟨hrec.sent, hrec.failed, fun b hb => ?_, hrec.le⟩,
    fun b hb => hfound b (List.mem_cons_of_mem a hb), fun b hb hlt => ?_⟩
  · rcases Finset.mem_insert.mp hb with rfl | hb
    · exact ha
    · exact hrec.closed b hb
  · rcases hclosed b hb hlt with hmem | hb
    · rcases List.mem_cons.mp hmem with rfl | hmem
      · exact Or.inr (Finset.mem_insert_self b _)
      · exact Or.inl hmem
    · exact Or.inr (Finset.mem_insert_of_mem hb)

end DrainLog

namespace DrainState

variable {s s' : DrainState} {e : DrainEvent}

/-- The numbers are those of agents there have been, and `Drain` has covered what it
has looked at. -/
structure Inv (s : DrainState) : Prop where
  agents : ∀ b ∈ s.agents, b < s.next
  last : s.log.last ≤ s.next
  covers : s.log.Covers s.agents s.pc

theorem Inv.track (h : s.Inv) :
    { s with agents := insert s.next s.agents, next := s.next + 1 }.Inv := by
  refine ⟨fun b hb => ?_, h.last.trans (Nat.le_succ _), h.covers.of_agents fun b hb hlt => ?_⟩
  · rcases Finset.mem_insert.mp hb with rfl | hb
    · exact Nat.lt_succ_self _
    · exact (h.agents b hb).trans (Nat.lt_succ_self _)
  · rcases Finset.mem_insert.mp hb with rfl | hb
    · exact absurd hlt h.last.not_gt
    · exact hb

theorem Inv.step (h : s.Inv) (hstep : s.step e = some s') : s'.Inv := by
  have hcov := h.covers
  cases e with
  | track =>
    cases hstep
    exact h.track
  | untrack a =>
    simp only [DrainState.step] at hstep
    split_ifs at hstep
    cases hstep
    exact ⟨fun b hb => h.agents b (Finset.mem_of_mem_erase hb), h.last,
      hcov.of_agents fun b hb _ => Finset.mem_of_mem_erase hb⟩
  | setSuccessors endpoints =>
    cases hstep
    exact ⟨h.agents, h.last, hcov⟩
  | drain targets reason deadline =>
    simp only [DrainState.step] at hstep
    split at hstep
    · cases hstep
      exact ⟨h.agents, Nat.zero_le _, rfl, rfl, rfl⟩
    · cases hstep
      exact ⟨h.agents, Nat.zero_le _, rfl, rfl, rfl⟩
    · cases hstep
  | resolve =>
    simp only [DrainState.step] at hstep
    split at hstep
    · next hpc =>
      rw [hpc] at hcov
      cases hstep
      exact ⟨h.agents, h.last, hcov⟩
    · cases hstep
  | snapshot order =>
    simp only [DrainState.step] at hstep
    split at hstep
    · next hpc =>
      rw [hpc] at hcov
      split_ifs at hstep with horder
      cases hstep
      exact ⟨h.agents, le_rfl, hcov.snapshot horder.2 h.agents⟩
    · cases hstep
  | goaway ok =>
    simp only [DrainState.step] at hstep
    split at hstep
    · next hpc =>
      rw [hpc] at hcov
      split_ifs at hstep
      · cases hstep
        exact ⟨h.agents, h.last, hcov.sent⟩
      · cases hstep
        exact ⟨h.agents, h.last, hcov.failed⟩
    · cases hstep
  | notified =>
    simp only [DrainState.step] at hstep
    split at hstep
    · next hpc =>
      rw [hpc] at hcov
      cases hstep
      obtain ⟨hrec, -, htold⟩ := hcov
      exact ⟨h.agents, h.last, hrec,
        fun b hb hlt => (htold b hb hlt).resolve_left List.not_mem_nil⟩
    · cases hstep
  | poll order =>
    simp only [DrainState.step] at hstep
    split at hstep
    · next hpc =>
      rw [hpc] at hcov
      obtain ⟨horder, hstep⟩ := Option.ite_none_right_eq_some.mp hstep
      cases hstep
      exact ⟨h.agents, le_rfl, hcov.poll horder.2 h.agents h.last⟩
    · cases hstep
  | tick =>
    simp only [DrainState.step] at hstep
    split at hstep
    · next hpc =>
      rw [hpc] at hcov
      cases hstep
      exact ⟨h.agents, h.last, hcov.1, hcov.2.2.1⟩
    · cases hstep
  | cancel =>
    simp only [DrainState.step] at hstep
    split at hstep
    · cases hstep
      exact ⟨h.agents, h.last, trivial⟩
    · cases hstep
  | timeout =>
    simp only [DrainState.step] at hstep
    split at hstep
    · next hpc =>
      rw [hpc] at hcov
      cases hstep
      exact ⟨h.agents, h.last, hcov.1, hcov.2.1, fun b hb hlt => Or.inl (hcov.2.2.2 b hb hlt)⟩
    · cases hstep
  | close =>
    simp only [DrainState.step] at hstep
    split at hstep
    · next hpc =>
      rw [hpc] at hcov
      cases hstep
      exact ⟨h.agents, h.last, hcov.close⟩
    · cases hstep
  | ret =>
    simp only [DrainState.step] at hstep
    split at hstep
    · cases hstep
      exact ⟨h.agents, h.last, trivial⟩
    · cases hstep
      exact ⟨h.agents, h.last, trivial⟩
    · cases hstep

theorem inv_of_reachable {successors : List GoString}
    (hs : (drainMachine successors).Reachable s) : s.Inv := by
  refine hs.invariant ?_ (fun _ hI hstep => Inv.step hI hstep)
  exact ⟨fun b hb => absurd hb (Finset.notMem_empty b), le_rfl, trivial⟩

end DrainState

/-! ## What a drain promises -/

/-- **What a drain promises at a step.** A link closed at the deadline has been sent
a GOAWAY, or the write of it has failed, and all GOAWAYs of the drain name the
same targets; and the agents that are tracked when it returns, with its context
alive, are ones whose link it has closed. -/
def DrainSound (t : Transition DrainState DrainEvent) : Prop :=
  match t.ev with
  | .close => ∀ g a todo, t.pre.pc = .closing g (a :: todo) →
      t.pre.log.Told g a
        ∧ ∀ b g', (b, g') ∈ t.pre.log.sent → g'.targetEndpoints = g.targetEndpoints
  | .ret => ∀ a ∈ t.post.agents, a ∈ t.post.log.closed
  | _ => True

/-- **The condition.** The link to be closed is of an agent that was there at the
first look of the drain; when the drain returns, no agent is tracked that has
joined since its latest look. -/
def DrainState.Clear (s : DrainState) : DrainEvent → Prop
  | .close => ∀ g a todo, s.pc = .closing g (a :: todo) → a < s.log.first
  | .ret => ∀ a ∈ s.agents, a < s.log.last
  | _ => True

/-- A link is closed in keeping with the promise exactly when its agent was there at
the first look. -/
theorem DrainState.Inv.close_iff {s s' : DrainState} (h : s.Inv) :
    DrainSound ⟨s, .close, s'⟩ ↔ s.Clear .close := by
  refine forall_congr' fun g => forall_congr' fun a => forall_congr' fun todo =>
    forall_congr' fun hpc => ?_
  have hcov := h.covers
  rw [show s.pc = .closing g (a :: todo) from hpc] at hcov
  obtain ⟨hrec, hfound, -⟩ := hcov
  refine ⟨fun hsound => ?_, fun hlt => ⟨(hfound a List.mem_cons_self).2 hlt, fun b g' hb => ?_⟩⟩
  · rcases hsound.1 with ha | ha
    · exact hrec.failed a ha
    · exact (hrec.sent a g ha).2
  · rw [(hrec.sent b g' hb).1]

/-- A drain returns in keeping with the promise exactly when nobody has joined since
its latest look and stayed. -/
theorem DrainState.Inv.ret_iff {s s' : DrainState} (h : s.Inv) (hstep : s.step .ret = some s') :
    DrainSound ⟨s, .ret, s'⟩ ↔ s.Clear .ret := by
  have hcov := h.covers
  obtain ⟨g, hrec, hclosed, hsame⟩ : ∃ g, s.log.Records g
      ∧ (∀ b ∈ s.agents, b < s.log.last → b ∈ s.log.closed)
      ∧ s' = { s with pc := .returned false } := by
    simp only [DrainState.step] at hstep
    split at hstep
    · next g hpc =>
      rw [hpc] at hcov
      cases hstep
      exact ⟨g, hcov.1, hcov.2, rfl⟩
    · next g hpc =>
      rw [hpc] at hcov
      cases hstep
      exact ⟨g, hcov.1,
        fun b hb hlt => (hcov.2.2 b hb hlt).resolve_left List.not_mem_nil, rfl⟩
    · cases hstep
  subst hsame
  exact ⟨fun hsound a ha => hrec.closed a (hsound a ha),
    fun hclear a ha => hclosed a ha (hclear a ha)⟩

/-- **A step of a drain keeps the promise exactly when it is clear**, in every run:
whatever agents do, and in whatever order the live set is listed. -/
theorem drainSound_iff {successors : List GoString} {h : List (Transition DrainState DrainEvent)}
    {s : DrainState} (hx : (drainMachine successors).Exec h s) :
    ∀ t ∈ h, DrainSound t ↔ t.pre.Clear t.ev := by
  rintro ⟨s₀, e, s₁⟩ ht
  obtain ⟨hreach, hstep⟩ := hx.step_of_mem ht
  have hinv := DrainState.inv_of_reachable hreach
  cases e with
  | close => exact hinv.close_iff
  | ret => exact hinv.ret_iff hstep
  | _ => exact Iff.rfl

/-- **Late joiners fall through.** Agent 1 joins after the GOAWAYs have been sent and
is closed at the deadline without one; agent 2 joins after the last poll and is
still there when the drain returns. -/
theorem late_joiners_missed :
    ∃ h s, (drainMachine []).Exec h s
      ∧ (∃ t ∈ h, t.ev = .close ∧ ¬ DrainSound t) ∧ ∃ t ∈ h, t.ev = .ret ∧ ¬ DrainSound t := by
  obtain ⟨s₁, s₂, s₃, s₄, hrun, hclose, htrack, hret, hpc, hlog, hleft⟩ : ∃ s₁ s₂ s₃ s₄,
      (drainMachine []).run [.track, .drain [go "r2"] (go "drain") 300000000, .resolve,
        .snapshot [0], .goaway true, .notified, .track, .poll [0, 1], .timeout, .close]
        (drainMachine []).init = some s₁
      ∧ (drainMachine []).step s₁ .close = some s₂ ∧ (drainMachine []).step s₂ .track = some s₃
      ∧ (drainMachine []).step s₃ .ret = some s₄
      ∧ s₁.pc = .closing ⟨[go "r2"], go "drain", 300⟩ [1]
      ∧ s₁.log = ⟨[(0, ⟨[go "r2"], go "drain", 300⟩)], ∅, {0}, 1, 2⟩
      ∧ 2 ∈ s₄.agents ∧ 2 ∉ s₄.log.closed := by
    refine ⟨_, _, _, _, rfl, rfl, rfl, rfl, rfl, rfl, ?_, ?_⟩ <;> decide
  obtain ⟨h, hx, -⟩ := Machine.exec_of_run _ _ hrun
  refine ⟨_, _, ((hx.snoc hclose).snoc htrack).snoc hret,
    ⟨⟨s₁, .close, s₂⟩, by simp, rfl, fun hsound => ?_⟩,
    ⟨⟨s₃, .ret, s₄⟩, by simp, rfl, fun hsound => hleft.2 (hsound 2 hleft.1)⟩⟩
  have htold := (hsound _ 1 [] hpc).1
  rw [DrainLog.Told, show (Transition.mk s₁ DrainEvent.close s₂).pre.log = s₁.log from rfl,
    hlog] at htold
  exact absurd htold (by decide)

/-- Agent 1 joins late but leaves before the deadline, so the promise is kept. -/
theorem early_agents_drained :
    ∃ h s, (drainMachine []).Exec h s
      ∧ (∃ t ∈ h, t.ev = .close ∧ DrainSound t) ∧ ∃ t ∈ h, t.ev = .ret ∧ DrainSound t := by
  obtain ⟨s₁, s₂, s₃, hrun, hclose, hret, hpc, hlog, hagents, hlast⟩ : ∃ s₁ s₂ s₃,
      (drainMachine []).run [.track, .drain [go "r2"] (go "drain") 300000000, .resolve,
        .snapshot [0], .goaway true, .notified, .track, .poll [0, 1], .untrack 1, .tick,
        .poll [0], .timeout] (drainMachine []).init = some s₁
      ∧ (drainMachine []).step s₁ .close = some s₂ ∧ (drainMachine []).step s₂ .ret = some s₃
      ∧ s₁.pc = .closing ⟨[go "r2"], go "drain", 300⟩ [0] ∧ s₁.log.first = 1
      ∧ s₂.agents = {0} ∧ s₂.log.last = 2 :=
    ⟨_, _, _, rfl, rfl, rfl, rfl, rfl, rfl, rfl⟩
  obtain ⟨h, hx, -⟩ := Machine.exec_of_run _ _ hrun
  have hx := (hx.snoc hclose).snoc hret
  refine ⟨_, _, hx, ⟨⟨s₁, .close, s₂⟩, by simp, rfl, (drainSound_iff hx _ (by simp)).mpr ?_⟩,
    ⟨⟨s₂, .ret, s₃⟩, by simp, rfl, (drainSound_iff hx _ (by simp)).mpr ?_⟩⟩
  · intro g a todo hpc'
    cases hpc.symm.trans hpc'
    show 0 < s₁.log.first
    rw [hlog]
    exact Nat.one_pos
  · intro a ha
    have ha : a ∈ s₂.agents := ha
    show a < s₂.log.last
    rw [hagents, Finset.mem_singleton] at ha
    rw [ha, hlast]
    exact Nat.two_pos
