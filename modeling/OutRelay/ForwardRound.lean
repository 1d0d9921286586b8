import OutRelay.ForwardMatcher

/-!
# One grant round per resumed pair

The driver of a matched pair issues two allocations and writes one
`ALLOC_GRANTED` frame to each agent; nobody else does. `RoundInv` ties what has
been issued and written in a round to where its driver is. Nearly every step of
the machine leaves all of it alone: such a step is `Quiet`, and the others are
the steps of a driver in its round. Together with the protocol of the pair, and
with the counter of the plane while it has not gone round (`IssuedInv`), this
gives `one_grant_round_per_pair`.
-/

/-- The driver is in its grant round, and has issued an allocation. -/
def DrivePC.inRound : DrivePC → Bool
  | .allocPeer _ _ | .successors _ _ _ | .writeSelf _ _ _ _ | .writePeer _ _ _ _
  | .granted _ _ _ _ => true
  | .sendSelf _ | .closePeer _ | .recv | .resolve | .allocSelf _ | .returned => false

/-- What the driver at `i` has issued. -/
def DrivePC.issuedFor (i : ℕ) : DrivePC → List (UInt32 × Grantee)
  | .allocPeer _ x => [(x, .driverSelf i)]
  | .successors _ x y | .writeSelf _ x y _ | .writePeer _ x y _ | .granted _ x y _ =>
    [(x, .driverSelf i), (y, .driverPeer i)]
  | .sendSelf _ | .closePeer _ | .recv | .resolve | .allocSelf _ | .returned => []

/-- The list that a driver has read and not yet sent to both agents. -/
def DrivePC.list? : DrivePC → Option (List GoString)
  | .writeSelf _ _ _ rr | .writePeer _ _ _ rr | .granted _ _ _ rr => some rr
  | _ => none

/-- **The steps of a grant round**, with `l` the relay's list. -/
inductive DrivePC.Next (l : List GoString) : DrivePC → DrivePC → Prop
  | allocSelf {p : ℕ} {x : UInt32} : Next l (.allocSelf p) (.allocPeer p x)
  | allocPeer {p : ℕ} {x y : UInt32} : Next l (.allocPeer p x) (.successors p x y)
  | successors {p : ℕ} {x y : UInt32} : Next l (.successors p x y) (.writeSelf p x y l)
  | writeSelf {p : ℕ} {x y : UInt32} {rr : List GoString} :
      Next l (.writeSelf p x y rr) (.writePeer p x y rr)
  | writePeer {p : ℕ} {x y : UInt32} {rr : List GoString} :
      Next l (.writePeer p x y rr) (.granted p x y rr)

/-- A driver keeps the list it has, or reads the relay's. -/
theorem DrivePC.Next.list? {l rr : List GoString} {pc pc' : DrivePC} (h : pc.Next l pc')
    (hl : pc'.list? = some rr) :
    pc.list? = some rr ∨ ∃ p x y, pc = .successors p x y ∧ rr = l := by
  cases h with
  | allocSelf => cases hl
  | allocPeer => cases hl
  | successors =>
    cases hl
    exact Or.inr ⟨_, _, _, rfl, rfl⟩
  | writeSelf => exact Or.inl hl
  | writePeer => exact Or.inl hl

theorem DrivePC.inRound_of_list? {pc : DrivePC} {rr : List GoString} (h : pc.list? = some rr) :
    pc.inRound = true := by
  cases pc <;> first | rfl | cases h

/-- The driver of the round an allocation was issued in. -/
def Grantee.round? : Grantee → Option ℕ
  | .driverSelf i | .driverPeer i => some i
  | .consumer _ | .provider _ => none

namespace ForwardHalf

/-- What a half was submitted with. -/
def SameSubmission (a c : ForwardHalf) : Prop :=
  c.id = a.id ∧ c.agentURI = a.agentURI ∧ c.ac = a.ac

/-- The half is where it was in its grant round, or in none. -/
def SameRound (a c : ForwardHalf) : Prop :=
  c.driver = a.driver ∨ (a.driver.inRound = false ∧ c.driver.inRound = false)

variable {a b c : ForwardHalf}

theorem SameSubmission.trans (hab : a.SameSubmission b) (hbc : b.SameSubmission c) :
    a.SameSubmission c :=
  ⟨hbc.1.trans hab.1, hbc.2.1.trans hab.2.1, hbc.2.2.trans hab.2.2⟩

theorem SameRound.trans (hab : a.SameRound b) (hbc : b.SameRound c) : a.SameRound c := by
  unfold SameRound at hab hbc ⊢
  rcases hab with hab | hab
  · rw [← hab]
    exact hbc
  · rcases hbc with hbc | hbc
    · rw [hbc]
      exact Or.inr hab
    · exact Or.inr ⟨hab.1, hbc.2⟩

theorem SameRound.inRound (h : a.SameRound c) (ha : a.driver.inRound = false) :
    c.driver.inRound = false := by
  rcases h with h | h
  · rw [h, ha]
  · exact h.2

theorem SameRound.issuedFor (h : a.SameRound c) (i : ℕ) :
    c.driver.issuedFor i = a.driver.issuedFor i := by
  have hnil : ∀ {pc : DrivePC}, pc.inRound = false → pc.issuedFor i = [] := by
    intro pc hpc
    cases pc <;> first | rfl | cases hpc
  rcases h with h | ⟨ha, hc⟩
  · rw [h]
  · rw [hnil ha, hnil hc]

end ForwardHalf

/-! ## Outcomes -/

/-- The outcomes of a half. -/
inductive Outcome
  | driver (peer : ℕ)
  | nonDriver
  | timedOut
  deriving DecidableEq

/-- What a handler makes of a receive, given `timedOut`. -/
def Outcome.ofReceive (timedOut : Bool) : Option ℕ → Outcome
  | some p => .driver p
  | none => if timedOut then .timedOut else .nonDriver

namespace ForwardHalf

/-- The outcome that was settled when the half, at `i`, left `pending`. -/
def outcome (i : ℕ) (a : ForwardHalf) : Option Outcome :=
  match a.fate with
  | .parked => none
  | .matchedWith p => some (if p < i then .driver p else .nonDriver)
  | .expired => some .timedOut

/-- The outcome that the handler has read: from its channel, and from `timedOut`
where that is closed. -/
def read (a : ForwardHalf) : Option Outcome := a.got.map (Outcome.ofReceive a.timedOut)

variable {i p : ℕ} {a b : ForwardHalf}

theorem outcome_eq_driver :
    a.outcome i = some (.driver p) ↔ a.fate = .matchedWith p ∧ p < i := by
  unfold outcome
  cases a.fate with
  | parked => simp
  | expired => simp
  | matchedWith q =>
    dsimp only
    split_ifs with h
    · simp only [Option.some.injEq, Outcome.driver.injEq, Fate.matchedWith.injEq]
      exact ⟨fun hq => ⟨hq, hq ▸ h⟩, fun hq => hq.1⟩
    · simp only [Option.some.injEq, Fate.matchedWith.injEq, reduceCtorEq, false_iff, not_and]
      rintro rfl
      exact h

theorem outcome_eq_timedOut : a.outcome i = some .timedOut ↔ a.fate = .expired := by
  unfold outcome
  cases a.fate with
  | parked => simp
  | expired => simp
  | matchedWith q =>
    dsimp only
    split_ifs <;> simp

theorem outcome_eq_none : a.outcome i = none ↔ a.fate = .parked := by
  unfold outcome
  cases a.fate <;> simp

theorem Paired.outcome_second (hab : a.Paired i p b) : a.outcome i = some (.driver p) :=
  outcome_eq_driver.mpr ⟨hab.fates.1, hab.fates.2.2.2⟩

theorem Paired.outcome_first (hab : a.Paired i p b) : b.outcome p = some .nonDriver := by
  unfold outcome
  rw [hab.fates.2.1]
  dsimp only
  rw [if_neg (Nat.lt_asymm hab.fates.2.2.2)]

/-- What a driver has received. -/
theorem SecondOK.got (h : a.SecondOK p) :
    (a.got = none ∧ (a.driver.closed = false ∨ a.driver = .recv ∧ a.matched = ⟨1, [p], false⟩))
      ∨ a.got = some (some p) := by
  unfold SecondOK at h
  cases hh : a.driver <;> rw [hh] at h
  case sendSelf => exact Or.inl ⟨h.2.2, Or.inl rfl⟩
  case closePeer => exact Or.inl ⟨h.2.2, Or.inl rfl⟩
  case recv => exact Or.inl ⟨h.2, Or.inr ⟨rfl, h.1⟩⟩
  case resolve => exact Or.inr h
  case returned => exact h.elim
  all_goals exact Or.inr h.2

/-- What the handler of a half without a driver's role has received. -/
theorem got_of_idle_or_released (h : a.Idle ∨ a.Released) : a.got = none ∨ a.got = some none := by
  rcases h with h | ⟨-, ⟨-, h⟩ | ⟨-, h⟩⟩
  · exact Or.inl h.2.1
  · exact Or.inl h
  · exact Or.inr h

theorem read_of_got {r : Option ℕ} (h : a.got = some r) :
    a.read = some (Outcome.ofReceive a.timedOut r) := by
  unfold read
  rw [h]
  rfl

theorem read_of_got_none (h : a.got = none) : a.read = none := by
  unfold read
  rw [h]
  rfl

end ForwardHalf

namespace ForwardState

variable {cfg : ForwardConfig} {s s' s'' : ForwardState} {i j p : ℕ} {now : Time}
  {a b c : ForwardHalf} {N : ForwardHalf → Prop} {x : ℕ → Fate → Prop}

/-! ## Quiet steps -/

/-- The window of the half at `i` elapses: the event is the critical section of
its expiry goroutine, the timer has fired, and the half is still the one that
waits under its id. -/
def Elapses (s : ForwardState) (e : ForwardEvent) (i : ℕ) : Prop :=
  e = .window i ∧ ∃ b, heap s.halves i = some b ∧ b.expiry = some .fired
    ∧ s.pending.get b.id = some i

/-- **What the event settles**: the fate of a half whose window elapses, and of
the two that a `Submit` makes a pair of. -/
def Settles (s : ForwardState) (e : ForwardEvent) (i : ℕ) (f : Fate) : Prop :=
  (f = .expired ∧ s.Elapses e i)
    ∨ ∃ ac id p, e = .submit ac id ∧ s.pending.get id = some p
      ∧ ((i = p ∧ f = .matchedWith s.halves.length)
        ∨ (i = s.halves.length ∧ f = .matchedWith p))

/-- **Who comes**: a half with what the event submits, over a connection of its
agent. It is in no grant round. -/
def Comes (cfg : ForwardConfig) (s : ForwardState) (e : ForwardEvent) (a : ForwardHalf) : Prop :=
  a.driver.inRound = false ∧ cfg.forward = true ∧ e = .submit a.ac a.id
    ∧ ∃ link, s.relay.links[a.ac]? = some link ∧ link.uri = a.agentURI

/-- **Nothing happens in the grant rounds**: every half is where it was in its
round, and nothing is issued or written for one. Halves of `N` may come, and
what is settled is in `x`. -/
structure Quiet (N : ForwardHalf → Prop) (x : ℕ → Fate → Prop) (s s' : ForwardState) :
    Prop where
  granted : s'.granted = s.granted
  issued : ∃ l, s'.issued = s.issued ++ l ∧ ∀ e ∈ l, e.snd.round? = none
  halves : forwardProtocol.Evolves (fun a c => a.SameSubmission c ∧ a.SameRound c) N x
    (heap s.halves) (heap s'.halves)

namespace Quiet

theorem of_halves_eq (hhalves : s'.halves = s.halves) (hgranted : s'.granted = s.granted)
    (hissued : ∃ l, s'.issued = s.issued ++ l ∧ ∀ e ∈ l, e.snd.round? = none) :
    s.Quiet N x s' := by
  refine ⟨hgranted, hissued, ?_⟩
  rw [hhalves]
  exact .refl (fun _ => ⟨⟨rfl, rfl, rfl⟩, Or.inl rfl⟩) _

/-- The halves evolve, and nothing is issued. -/
theorem of_evolves (hgranted : s'.granted = s.granted) (hissued : s'.issued = s.issued)
    (hhalves : forwardProtocol.Evolves (fun a c => a.SameSubmission c ∧ a.SameRound c) N x
      (heap s.halves) (heap s'.halves)) : s.Quiet N x s' :=
  ⟨hgranted, ⟨[], hissued.trans (List.append_nil _).symm, fun _ h => absurd h List.not_mem_nil⟩,
    hhalves⟩

/-- A step of the relay, or of the successor list. -/
theorem of_eq (hhalves : s'.halves = s.halves) (hgranted : s'.granted = s.granted)
    (hissued : s'.issued = s.issued) : s.Quiet N x s' := by
  refine of_evolves hgranted hissued ?_
  rw [hhalves]
  exact .refl (fun _ => ⟨⟨rfl, rfl, rfl⟩, Or.inl rfl⟩) _

/-- No half comes, after all. -/
theorem mono (h : s.Quiet (fun _ => False) x s') : s.Quiet N x s' :=
  ⟨h.granted, h.issued, h.halves.mono (fun _ _ h => h) (fun _ h => h.elim)⟩

theorem trans (h : s.Quiet (fun _ => False) x s')
    (h' : s'.Quiet (fun _ => False) (fun _ _ => False) s'') : s.Quiet (fun _ => False) x s'' := by
  refine ⟨h'.granted.trans h.granted, ?_, .trans (fun a b c hab hbc => ?_) h.halves h'.halves⟩
  · obtain ⟨l, hl, hround⟩ := h.issued
    obtain ⟨l', hl', hround'⟩ := h'.issued
    refine ⟨l ++ l', by rw [hl', hl, List.append_assoc], fun e he => ?_⟩
    exact (List.mem_append.mp he).elim (hround e) (hround' e)
  · exact ⟨hab.1.trans hbc.1, hab.2.trans hbc.2⟩

/-- A half changes, outside of its grant round. -/
theorem modifyHalf {f : ForwardHalf → ForwardHalf}
    (hf : ∀ a, heap s.halves i = some a → a.SameSubmission (f a) ∧ a.SameRound (f a)
      ∧ ((f a).fate = a.fate ∨ (a.fate = .parked ∧ x i (f a).fate))) :
    s.Quiet N x (s.modifyHalf i f) := by
  cases hi : heap s.halves i with
  | none => exact of_eq (List.modify_eq_self (List.getElem?_eq_none_iff.mp hi)) rfl rfl
  | some a =>
    refine of_evolves rfl rfl ?_
    rw [heap_modify hi]
    obtain ⟨hsub, hround, hfate⟩ := hf a hi
    exact .update (fun _ => ⟨⟨rfl, rfl, rfl⟩, Or.inl rfl⟩) hi ⟨hsub, hround⟩ hfate

/-- A channel, a flag or an expiry goroutine changes. -/
theorem tweak {f : ForwardHalf → ForwardHalf}
    (hf : ∀ a : ForwardHalf, a.SameSubmission (f a) ∧ (f a).fate = a.fate
      ∧ (f a).driver = a.driver) : s.Quiet N x (s.modifyHalf i f) :=
  modifyHalf (fun a _ => ⟨(hf a).1, Or.inl (hf a).2.2, Or.inl (hf a).2.1⟩)

/-- The goroutine of a half moves on, outside of its grant round. -/
theorem advance (hi : heap s.halves i = some a) (hround : a.driver.inRound = false)
    {f : ForwardHalf → ForwardHalf}
    (hf : ∀ a : ForwardHalf, a.SameSubmission (f a) ∧ (f a).fate = a.fate
      ∧ (f a).driver.inRound = false) : s.Quiet N x (s.modifyHalf i f) := by
  refine modifyHalf (fun a' hi' => ?_)
  cases hi.symm.trans hi'
  exact ⟨(hf a).1, Or.inr ⟨hround, (hf a).2.2⟩, Or.inl (hf a).2.1⟩

/-- A channel operation crashes, or is quiet. -/
theorem afterChan {β : Type} {r : ChanResult β} {k : β → ForwardState}
    (hs : s.afterChan r k = some s') (hk : ∀ m, s.Quiet N x (k m)) : s.Quiet N x s' :=
  ChanResult.andThen_rule hs (of_eq rfl rfl rfl) hk

/-- A half is submitted. -/
theorem submit (I : s.MatchInv) (hfwd : cfg.forward = true) {ac : ℕ} {link : AgentLink}
    (hac : s.relay.links[ac]? = some link) (id : UInt64) :
    s.Quiet (s.Comes cfg (.submit ac id)) (s.Settles (.submit ac id))
      (s.submit ac link.uri id) := by
  unfold ForwardState.submit
  cases hpend : s.pending.get id with
  | none =>
    refine of_evolves rfl rfl ?_
    dsimp only
    rw [heap_append]
    exact .come (.refl (fun _ => ⟨⟨rfl, rfl, rfl⟩, Or.inl rfl⟩) _) (heap_length _)
      ⟨rfl, hfwd, rfl, link, hac, rfl⟩ (Or.inl rfl)
  | some peer =>
    obtain ⟨b, hb, -, hparked⟩ := I.halves.waits id peer hpend
    refine of_evolves rfl rfl ?_
    dsimp only
    rw [heap_modify_append hb]
    refine .come (.update (fun _ => ⟨⟨rfl, rfl, rfl⟩, Or.inl rfl⟩) hb
      ⟨⟨rfl, rfl, rfl⟩, Or.inl rfl⟩ (Or.inr ⟨hparked, ?_⟩)) (heap_length _)
      ⟨rfl, hfwd, rfl, link, hac, rfl⟩ (Or.inr ?_)
    · exact Or.inr ⟨ac, id, peer, rfl, hpend, Or.inl ⟨rfl, rfl⟩⟩
    · exact Or.inr ⟨ac, id, peer, rfl, hpend, Or.inr ⟨rfl, rfl⟩⟩

/-- A step of `driveForwardResume` outside of a grant round. -/
theorem driver (hi : heap s.halves i = some a)
    (hpc : a.driver.closed = false ∨ a.driver.peer? = none)
    (hstep : s.driverStep cfg i now a = some s') : s.Quiet (fun _ => False) x s' := by
  unfold driverStep at hstep
  cases hh : a.driver <;> rw [hh] at hstep hpc <;> dsimp only at hstep
  case sendSelf q =>
    exact afterChan hstep
      (fun m => advance hi (by rw [hh]; rfl) (fun _ => ⟨⟨rfl, rfl, rfl⟩, rfl, rfl⟩))
  case closePeer q =>
    obtain ⟨peer, -, hstep⟩ := Option.bind_eq_some_iff.mp hstep
    refine afterChan hstep (fun m => ?_)
    have hclose : s.Quiet (fun _ => False) x (s.modifyHalf q (fun h => { h with matched := m })) :=
      tweak (fun _ => ⟨⟨rfl, rfl, rfl⟩, rfl, rfl⟩)
    obtain ⟨a', hi', ⟨-, hround⟩, -⟩ := hclose.halves.old i a hi
    exact hclose.trans (advance hi' (hround.inRound (by rw [hh]; rfl))
      (fun _ => ⟨⟨rfl, rfl, rfl⟩, rfl, rfl⟩))
  case recv =>
    exact afterChan hstep
      (fun m => advance hi (by rw [hh]; rfl) (fun _ => ⟨⟨rfl, rfl, rfl⟩, rfl, rfl⟩))
  case resolve =>
    split at hstep
    · cases hstep
      exact advance hi (by rw [hh]; rfl) (fun _ => ⟨⟨rfl, rfl, rfl⟩, rfl, rfl⟩)
    · cases hstep
      exact advance hi (by rw [hh]; rfl) (fun _ => ⟨⟨rfl, rfl, rfl⟩, rfl, rfl⟩)
  all_goals rcases hpc with hpc | hpc <;> cases hpc
  -- the goroutine has returned
  cases hstep

/-- A step of the expiry goroutine once its timer has fired. -/
theorem window (I : s.MatchInv) (hi : heap s.halves i = some a)
    (hstep : s.windowStep i a = some s') :
    s.Quiet (fun _ => False) (s.Settles (.window i)) s' := by
  unfold windowStep at hstep
  split at hstep
  · rename_i hfired
    split_ifs at hstep with hpend
    · cases hstep
      refine (modifyHalf (i := i)
        (f := fun h => { h with expiry := some .setTimedOut, fate := .expired })
        (fun b hb => ⟨⟨rfl, rfl, rfl⟩, Or.inl rfl, Or.inr ⟨?_, ?_⟩⟩)).trans (of_eq rfl rfl rfl)
      · exact (I.halves.key_of_waiting hb hpend).2
      · exact Or.inl ⟨rfl, rfl, a, hi, hfired, hpend⟩
    · cases hstep
      exact tweak (fun _ => ⟨⟨rfl, rfl, rfl⟩, rfl, rfl⟩)
  · cases hstep
    exact tweak (fun _ => ⟨⟨rfl, rfl, rfl⟩, rfl, rfl⟩)
  · exact afterChan hstep (fun m => tweak (fun _ => ⟨⟨rfl, rfl, rfl⟩, rfl, rfl⟩))
  · cases hstep

/-- A step of the handler of an opened stream. -/
theorem openStep {k : ℕ} {o : ForwardOpen} (hstep : s.openStep cfg k now o = some s') :
    s.Quiet N x s' := by
  obtain ⟨hhalves, -, -, hgranted, -⟩ := openStep_eq hstep
  refine of_halves_eq hhalves hgranted ?_
  have hall : ∀ {g : Grantee} {uri : AgentURI} {f : UInt32 → OpenPC}, g.round? = none →
      (s.allocate cfg uri now g).map (fun r => r.fst.setOpen k (f r.snd)) = some s' →
      ∃ l, s'.issued = s.issued ++ l ∧ ∀ e ∈ l, e.snd.round? = none := by
    intro g uri f hg h
    obtain ⟨r, hr, rfl⟩ := Option.map_eq_some_iff.mp h
    obtain ⟨relay, -, -, heq⟩ := allocate_eq hr
    refine ⟨[(r.snd, g)], congrArg ForwardState.issued heq, fun e he => ?_⟩
    rw [List.mem_singleton.mp he]
    exact hg
  have hforget : ∀ {id : UInt32} {pc : OpenPC},
      (s.forget cfg id).map (fun s => s.setOpen k pc) = some s' →
      ∃ l, s'.issued = s.issued ++ l ∧ ∀ e ∈ l, e.snd.round? = none := by
    intro id pc h
    obtain ⟨r, hr, rfl⟩ := Option.map_eq_some_iff.mp h
    unfold forget at hr
    obtain ⟨relay, -, rfl⟩ := Option.map_eq_some_iff.mp hr
    exact ⟨[], (List.append_nil _).symm, fun _ h => absurd h List.not_mem_nil⟩
  unfold ForwardState.openStep at hstep
  cases hpc : o.pc <;> rw [hpc] at hstep
  case returned => cases hstep
  case allocConsumer => exact hall rfl hstep
  case allocProvider => exact hall (f := OpenPC.granted _) rfl hstep
  case granted => exact hforget hstep
  case forgetConsumer => exact hforget hstep

end Quiet

/-- **A step is quiet, or one of a driver in its grant round.** -/
theorem step_quiet {e : ForwardEvent} (I : s.MatchInv) (hstep : s.step cfg e = some s') :
    s.Quiet (s.Comes cfg e) (s.Settles e) s'
      ∨ ∃ i now a p, e = .driver i now ∧ heap s.halves i = some a ∧ a.driver.closed = true
        ∧ a.driver.peer? = some p ∧ s.driverStep cfg i now a = some s' := by
  have hcalm : ¬ s.panicked = true := by
    rw [I.calm]
    exact Bool.false_ne_true
  unfold step at hstep
  rw [if_neg hcalm] at hstep
  cases e with
  | relay e =>
    dsimp only at hstep
    split_ifs at hstep
    obtain ⟨r, -, rfl⟩ := Option.map_eq_some_iff.mp hstep
    exact Or.inl (.of_eq rfl rfl rfl)
  | setSuccessors endpoints =>
    cases hstep
    exact Or.inl (.of_eq rfl rfl rfl)
  | submit ac id =>
    obtain ⟨link, hac, hstep⟩ := Option.bind_eq_some_iff.mp hstep
    split_ifs at hstep with hguard
    cases hstep
    exact Or.inl (.submit I hguard.2 hac id)
  | driver i now =>
    obtain ⟨a, hi, hstep⟩ := Option.bind_eq_some_iff.mp hstep
    cases hpeer : a.driver.peer? with
    | none => exact Or.inl (Quiet.driver hi (Or.inr hpeer) hstep).mono
    | some p =>
      cases hcl : a.driver.closed with
      | false => exact Or.inl (Quiet.driver hi (Or.inl hcl) hstep).mono
      | true => exact Or.inr ⟨i, now, a, p, rfl, hi, hcl, hpeer, hstep⟩
  | windowRecv i =>
    obtain ⟨a, -, hstep⟩ := Option.bind_eq_some_iff.mp hstep
    unfold windowRecv at hstep
    split_ifs at hstep
    exact Or.inl (.afterChan hstep (fun m => .tweak (fun _ => ⟨⟨rfl, rfl, rfl⟩, rfl, rfl⟩)))
  | timerFire i =>
    obtain ⟨a, -, hstep⟩ := Option.bind_eq_some_iff.mp hstep
    unfold timerFire at hstep
    split_ifs at hstep
    cases hstep
    exact Or.inl (.tweak (fun _ => ⟨⟨rfl, rfl, rfl⟩, rfl, rfl⟩))
  | window i =>
    obtain ⟨a, hi, hstep⟩ := Option.bind_eq_some_iff.mp hstep
    exact Or.inl (Quiet.window I hi hstep).mono
  | openForward caller provider =>
    obtain ⟨link, -, hstep⟩ := Option.bind_eq_some_iff.mp hstep
    obtain ⟨k, -, hstep⟩ := Option.bind_eq_some_iff.mp hstep
    obtain ⟨provAC, -, hstep⟩ := Option.bind_eq_some_iff.mp hstep
    split_ifs at hstep
    cases hstep
    exact Or.inl (.of_eq rfl rfl rfl)
  | openStep k now =>
    obtain ⟨o, -, hstep⟩ := Option.bind_eq_some_iff.mp hstep
    exact Or.inl (.openStep hstep)

/-- **What a step leaves of the halves**, and what it settles. -/
theorem evolves_step {e : ForwardEvent} (I : s.MatchInv) (hstep : s.step cfg e = some s') :
    forwardProtocol.Evolves ForwardHalf.SameSubmission (s.Comes cfg e) (s.Settles e)
      (heap s.halves) (heap s'.halves) := by
  rcases step_quiet I hstep with hq | ⟨i, now, a, p, -, hi, hcl, hpeer, hdrive⟩
  · exact hq.halves.mono (fun _ _ h => h.1) (fun _ h => h)
  · obtain ⟨pc, hhalves, -⟩ := driverStep_granting hcl hpeer hdrive
    rw [hhalves, heap_modify hi]
    exact .update (fun _ => ⟨rfl, rfl, rfl⟩) hi ⟨rfl, rfl, rfl⟩ (Or.inl rfl)

/-- **A driver in its round** takes its next step, where `successors` is the
relay's list. -/
theorem next_driverStep {now : Time} (hi : s.halves[j]? = some a) (hcl : a.driver.closed = true)
    (hpeer : a.driver.peer? = some p) (hdrive : s.driverStep cfg j now a = some s')
    (hj : s'.halves[j]? = some c) : a.driver.Next s.successors c.driver := by
  have hnew : ∀ {pc : DrivePC},
      (s.halves.modify j (fun h => { h with driver := pc }))[j]? = some c → c.driver = pc := by
    intro pc hc
    rw [List.getElem?_modify, show s.halves[j]? = some a from hi] at hc
    simp only [if_true] at hc
    cases hc
    rfl
  unfold driverStep at hdrive
  cases hh : a.driver <;> rw [hh] at hdrive hcl hpeer <;> dsimp only at hdrive
  case sendSelf q => cases hcl
  case closePeer q => cases hcl
  case recv => cases hpeer
  case resolve => cases hpeer
  case returned => cases hpeer
  case granted q x y rr => cases hdrive
  case allocSelf q =>
    obtain ⟨r, hr, rfl⟩ := Option.map_eq_some_iff.mp hdrive
    obtain ⟨relay, -, -, heq⟩ := allocate_eq hr
    rw [heq] at hj
    rw [hnew hj]
    exact .allocSelf
  case allocPeer q x =>
    obtain ⟨peer, -, hdrive⟩ := Option.bind_eq_some_iff.mp hdrive
    obtain ⟨r, hr, rfl⟩ := Option.map_eq_some_iff.mp hdrive
    obtain ⟨relay, -, -, heq⟩ := allocate_eq hr
    rw [heq] at hj
    rw [hnew hj]
    exact .allocPeer
  case successors q x y =>
    cases hdrive
    rw [hnew hj]
    exact .successors
  case writeSelf q x y rr =>
    cases hdrive
    rw [hnew hj]
    exact .writeSelf
  case writePeer q x y rr =>
    obtain ⟨peer, -, hdrive⟩ := Option.bind_eq_some_iff.mp hdrive
    cases hdrive
    rw [hnew hj]
    exact .writePeer

/-- Every half came over a connection of its agent. -/
def HalfLinks (s : ForwardState) : Prop :=
  ∀ i a, heap s.halves i = some a →
    ∃ link, s.relay.links[a.ac]? = some link ∧ link.uri = a.agentURI

/-- The connections stay those of their agents. -/
theorem links_of_step {e : ForwardEvent} (hstep : s.step cfg e = some s') {j : ℕ}
    {link : AgentLink} (hj : s.relay.links[j]? = some link) :
    ∃ link', s'.relay.links[j]? = some link' ∧ link'.uri = link.uri := by
  cases relayMove_of_step hstep with
  | still hrelay => exact ⟨link, hrelay ▸ hj, rfl⟩
  | own _ hrelay => exact RelayState.links_step hrelay hj
  | opened _ hrelay => exact ⟨link, hrelay ▸ hj, rfl⟩
  | driver _ _ hrelay => exact RelayState.links_step hrelay hj
  | openAlloc _ _ hrelay => exact RelayState.links_step hrelay hj
  | openForget _ _ hrelay => exact RelayState.links_step hrelay hj

theorem halfLinks_of_reachable {idleTTL pendingTTL start : Time}
    (hs : (forwardMachine cfg idleTTL pendingTTL start).Reachable s) : s.HalfLinks := by
  refine hs.invariant (I := HalfLinks) (fun i a h => ?_) (fun {s e s'} hr hL hstep i c hi => ?_)
  · cases h
  · have hevol := evolves_step (matchInv_of_reachable hr) hstep
    -- an old half came over an old connection, a new one over that of the event
    have hlink : ∃ link, s.relay.links[c.ac]? = some link ∧ link.uri = c.agentURI := by
      cases ha : heap s.halves i with
      | none =>
        obtain ⟨-, -, -, h⟩ := (hevol.new i c ha hi).1
        exact h
      | some a =>
        obtain ⟨c', hc', hac, -⟩ := hevol.old i a ha
        cases hi.symm.trans hc'
        obtain ⟨link, hl, hu⟩ := hL i a ha
        exact ⟨link, hac.2.2 ▸ hl, hu.trans hac.2.1.symm⟩
    obtain ⟨link, hl, hu⟩ := hlink
    obtain ⟨link', hl', hu'⟩ := links_of_step hstep hl
    exact ⟨link', hl', hu'.trans hu⟩

/-- **Where a driver in its round comes from**: it was there before, or takes its
next step in this one. -/
theorem driver_step {e : ForwardEvent} (I : s.MatchInv) (hstep : s.step cfg e = some s')
    (hj : s'.halves[j]? = some c) (hround : c.driver.inRound = true) :
    ∃ a, s.halves[j]? = some a ∧ (a.driver = c.driver
      ∨ ∃ now, e = .driver j now ∧ a.driver.Next s.successors c.driver) := by
  rcases step_quiet I hstep with hq | ⟨i, now, a, p, rfl, hi, hcl, hpeer, hdrive⟩
  · cases hpre : s.halves[j]? with
    | none =>
      have hnot := (hq.halves.new j c hpre hj).1.1
      rw [hround] at hnot
      cases hnot
    | some a =>
      obtain ⟨d, hd, ⟨-, hsame⟩, -⟩ := hq.halves.old j a hpre
      cases hj.symm.trans hd
      rcases hsame with hsame | ⟨-, hnot⟩
      · exact ⟨a, rfl, Or.inl hsame.symm⟩
      · rw [hround] at hnot
        cases hnot
  · by_cases hji : j = i
    · subst hji
      exact ⟨a, hi, Or.inr ⟨now, rfl, next_driverStep hi hcl hpeer hdrive hj⟩⟩
    · obtain ⟨pc, hhalves, -⟩ := driverStep_granting hcl hpeer hdrive
      have hjc : (s.halves.modify i (fun h => { h with driver := pc }))[j]? = some c := by
        rw [← hj, hhalves]
      rw [List.getElem?_modify] at hjc
      simp only [if_neg (Ne.symm hji), id_map'] at hjc
      exact ⟨c, hjc, Or.inl rfl⟩

/-- **Where the list of a driver comes from**: it had it before, or reads it in
this step. -/
theorem list?_step {e : ForwardEvent} {rr : List GoString} (I : s.MatchInv)
    (hstep : s.step cfg e = some s') (hj : s'.halves[j]? = some c) (hl : c.driver.list? = some rr) :
    (∃ a, s.halves[j]? = some a ∧ a.driver.list? = some rr)
      ∨ ∃ now a p x y, e = .driver j now ∧ s.halves[j]? = some a
        ∧ a.driver = .successors p x y ∧ rr = s.successors := by
  obtain ⟨a, ha, hsame | ⟨now, rfl, hnext⟩⟩ :=
    driver_step I hstep hj (DrivePC.inRound_of_list? hl)
  · exact Or.inl ⟨a, ha, hsame ▸ hl⟩
  · rcases hnext.list? hl with hal | ⟨p, x, y, hpc, hrr⟩
    · exact Or.inl ⟨a, ha, hal⟩
    · exact Or.inr ⟨now, a, p, x, y, rfl, ha, hpc, hrr⟩

/-! ## Grant rounds -/

/-- The frames written in the round of the driver at `i`. -/
def roundFrames (s : ForwardState) (i : ℕ) : List Grant := s.granted.filter (·.round = i)

/-- The allocations issued in the round of the driver at `i`. -/
def roundIssued (s : ForwardState) (i : ℕ) : List (UInt32 × Grantee) :=
  s.issued.filter (·.snd.round? = some i)

/-- **What has been written in the round of the half `a` at `i`**, by where its
goroutine is. -/
def Written (cfg : ForwardConfig) (s : ForwardState) (i : ℕ) (a : ForwardHalf) : Prop :=
  match a.driver with
  | .writePeer _ x y rr => s.roundFrames i = [⟨i, a.ac, ⟨a.id, x, y, cfg.endpoint, rr⟩⟩]
  | .granted p x y rr => ∃ b, heap s.halves p = some b
      ∧ s.roundFrames i = [⟨i, a.ac, ⟨a.id, x, y, cfg.endpoint, rr⟩⟩,
        ⟨i, b.ac, ⟨a.id, y, x, cfg.endpoint, rr⟩⟩]
  | _ => s.roundFrames i = []

/-- **The grant rounds are as their drivers know them**, and there are no
others. -/
structure RoundInv (cfg : ForwardConfig) (s : ForwardState) : Prop where
  written : ∀ i a, heap s.halves i = some a → s.Written cfg i a
  issued : ∀ i a, heap s.halves i = some a → s.roundIssued i = a.driver.issuedFor i
  none : ∀ i, heap s.halves i = none → s.roundFrames i = [] ∧ s.roundIssued i = []
  plane : ∀ i a, heap s.halves i = some a → cfg.forward = true

/-- Outside of its round a half has written nothing. -/
theorem written_of_not_inRound (h : a.driver.inRound = false) :
    s.Written cfg i a ↔ s.roundFrames i = [] := by
  unfold Written
  cases hh : a.driver <;> rw [hh] at h
  all_goals first | exact Iff.rfl | cases h

/-- What has been written in a round depends on the round and its two halves. -/
theorem Written.congr (h : s.Written cfg i a) (hframes : s'.roundFrames i = s.roundFrames i)
    (hsame : c.driver = a.driver ∧ c.id = a.id ∧ c.ac = a.ac)
    (hpeer : ∀ p b, heap s.halves p = some b → ∃ d, heap s'.halves p = some d ∧ d.ac = b.ac) :
    s'.Written cfg i c := by
  unfold Written at h ⊢
  rw [hsame.1, hsame.2.1, hsame.2.2, hframes]
  cases hh : a.driver <;> rw [hh] at h <;> dsimp only at h ⊢
  case granted p x y rr =>
    obtain ⟨b, hb, h⟩ := h
    obtain ⟨d, hd, hac⟩ := hpeer p b hb
    exact ⟨d, hd, by rw [hac, h]⟩
  all_goals exact h

theorem Quiet.roundFrames (h : s.Quiet N x s') (i : ℕ) : s'.roundFrames i = s.roundFrames i := by
  unfold ForwardState.roundFrames
  rw [h.granted]

theorem Quiet.roundIssued (h : s.Quiet N x s') (i : ℕ) : s'.roundIssued i = s.roundIssued i := by
  obtain ⟨l, hl, hround⟩ := h.issued
  have hnil : l.filter (·.snd.round? = some i) = [] := by
    rw [List.filter_eq_nil_iff]
    intro e he
    rw [hround e he]
    exact Bool.false_ne_true
  unfold ForwardState.roundIssued
  rw [hl, List.filter_append, hnil, List.append_nil]

/-- A quiet step keeps the rounds. -/
theorem RoundInv.quiet {e : ForwardEvent} (R : s.RoundInv cfg)
    (hq : s.Quiet (s.Comes cfg e) x s') : s'.RoundInv cfg := by
  -- a half of the state after the step was there before it, or is new
  have hback : ∀ {i d}, heap s'.halves i = some d →
      (∃ c, heap s.halves i = some c ∧ c.SameSubmission d ∧ c.SameRound d)
        ∨ (heap s.halves i = Option.none ∧ d.driver.inRound = false ∧ cfg.forward = true) := by
    intro i d hd
    cases hi : heap s.halves i with
    | none =>
      obtain ⟨hround, hfwd, -⟩ := (hq.halves.new i d hi hd).1
      exact Or.inr ⟨rfl, hround, hfwd⟩
    | some c =>
      obtain ⟨d', hd', hcd, -⟩ := hq.halves.old i c hi
      cases hd.symm.trans hd'
      exact Or.inl ⟨c, rfl, hcd⟩
  refine ⟨fun i d hd => ?_, fun i d hd => ?_, fun i hi => ?_, fun i d hd => ?_⟩
  · rcases hback hd with ⟨c, hc, hcd, hsame | ⟨hcr, hdr⟩⟩ | ⟨hnone, hdr, -⟩
    · refine (R.written i c hc).congr (hq.roundFrames i) ⟨hsame, hcd.1, hcd.2.2⟩ (fun p b hb => ?_)
      obtain ⟨d', hd', ⟨hbd, -⟩, -⟩ := hq.halves.old p b hb
      exact ⟨d', hd', hbd.2.2⟩
    · rw [written_of_not_inRound hdr, hq.roundFrames]
      exact (written_of_not_inRound hcr).mp (R.written i c hc)
    · rw [written_of_not_inRound hdr, hq.roundFrames]
      exact (R.none i hnone).1
  · rw [hq.roundIssued]
    rcases hback hd with ⟨c, hc, -, hsame⟩ | ⟨hnone, hdr, -⟩
    · rw [hsame.issuedFor, R.issued i c hc]
    · rw [(R.none i hnone).2]
      cases hh : d.driver <;> rw [hh] at hdr
      all_goals first | rfl | cases hdr
  · rw [hq.roundFrames, hq.roundIssued]
    refine R.none i ?_
    cases hc : heap s.halves i with
    | none => rfl
    | some c =>
      obtain ⟨d, hd, -⟩ := hq.halves.old i c hc
      cases hi.symm.trans hd
  · rcases hback hd with ⟨c, hc, -⟩ | ⟨-, -, hfwd⟩
    · exact R.plane i c hc
    · exact hfwd

theorem roundIssued_snoc {e : UInt32 × Grantee} (h : s'.issued = s.issued ++ [e]) :
    s'.roundIssued i
      = if e.snd.round? = some i then s.roundIssued i ++ [e] else s.roundIssued i := by
  unfold roundIssued
  rw [h, List.filter_append, List.filter_singleton]
  split_ifs with he
  · simp [he]
  · simp [he]

theorem roundFrames_snoc {g : Grant} (h : s'.granted = s.granted ++ [g]) :
    s'.roundFrames i = if g.round = i then s.roundFrames i ++ [g] else s.roundFrames i := by
  unfold roundFrames
  rw [h, List.filter_append, List.filter_singleton]
  split_ifs with hg
  · simp [hg]
  · simp [hg]

/-- **A driver moves on in its round**, with what it issues and writes. -/
theorem RoundInv.advance (R : s.RoundInv cfg) (hi : heap s.halves i = some a) {pc : DrivePC}
    (hhalves : heap s'.halves
      = Function.update (heap s.halves) i (some { a with driver := pc }))
    (hother : ∀ j, j ≠ i → s'.roundFrames j = s.roundFrames j ∧ s'.roundIssued j = s.roundIssued j)
    (hwritten : s'.Written cfg i { a with driver := pc })
    (hissued : s'.roundIssued i = pc.issuedFor i) : s'.RoundInv cfg := by
  have hpeer : ∀ p b, heap s.halves p = some b → ∃ d, heap s'.halves p = some d ∧ d.ac = b.ac := by
    intro p b hb
    rw [hhalves]
    by_cases hp : p = i
    · subst hp
      cases hi.symm.trans hb
      exact ⟨_, Function.update_self _ _ _, rfl⟩
    · exact ⟨b, (Function.update_of_ne hp _ _).trans hb, rfl⟩
  refine ⟨fun j d hd => ?_, fun j d hd => ?_, fun j hj => ?_, fun j d hd => R.plane i a hi⟩
  all_goals by_cases hji : j = i
  · subst hji
    rw [hhalves, Function.update_self] at hd
    cases hd
    exact hwritten
  · rw [hhalves, Function.update_of_ne hji] at hd
    exact (R.written j d hd).congr (hother j hji).1 ⟨rfl, rfl, rfl⟩ hpeer
  · subst hji
    rw [hhalves, Function.update_self] at hd
    cases hd
    exact hissued
  · rw [hhalves, Function.update_of_ne hji] at hd
    rw [(hother j hji).2, R.issued j d hd]
  · subst hji
    rw [hhalves, Function.update_self] at hj
    cases hj
  · rw [hhalves, Function.update_of_ne hji] at hj
    rw [(hother j hji).1, (hother j hji).2]
    exact R.none j hj

/-- An allocation issued in round `i` belongs to no other round. -/
theorem other_of_issued {e : UInt32 × Grantee} (hissued : s'.issued = s.issued ++ [e])
    (hround : e.snd.round? = some i) (hgranted : s'.granted = s.granted) (j : ℕ) (hj : j ≠ i) :
    s'.roundFrames j = s.roundFrames j ∧ s'.roundIssued j = s.roundIssued j := by
  refine ⟨congrArg (List.filter _) hgranted, ?_⟩
  rw [roundIssued_snoc hissued, hround, if_neg (fun h => hj (Option.some.inj h).symm)]

/-- A frame written in round `i` belongs to no other round. -/
theorem other_of_granted {g : Grant} (hgranted : s'.granted = s.granted ++ [g])
    (hround : g.round = i) (hissued : s'.issued = s.issued) (j : ℕ) (hj : j ≠ i) :
    s'.roundFrames j = s.roundFrames j ∧ s'.roundIssued j = s.roundIssued j := by
  refine ⟨?_, congrArg (List.filter _) hissued⟩
  rw [roundFrames_snoc hgranted, hround, if_neg (fun h => hj h.symm)]

/-- The driver at `i` issues an allocation. -/
theorem RoundInv.allocate (R : s.RoundInv cfg) (hi : heap s.halves i = some a) {uri : AgentURI}
    {g : Grantee} {r : ForwardState × UInt32} {pc : DrivePC}
    (hr : s.allocate cfg uri now g = some r) (hround : g.round? = some i)
    (hwritten : (r.fst.modifyHalf i (fun h => { h with driver := pc })).Written cfg i
      { a with driver := pc })
    (hissued : a.driver.issuedFor i ++ [(r.snd, g)] = pc.issuedFor i) :
    (r.fst.modifyHalf i (fun h => { h with driver := pc })).RoundInv cfg := by
  obtain ⟨relay, -, -, heq⟩ := allocate_eq hr
  have hsnoc : (r.fst.modifyHalf i (fun h => { h with driver := pc })).issued
      = s.issued ++ [(r.snd, g)] := congrArg ForwardState.issued heq
  refine R.advance hi ?_ (other_of_issued hsnoc hround (by rw [heq])) hwritten ?_
  · exact (congrArg (fun t : ForwardState => heap (t.halves.modify i _)) heq).trans
      (heap_modify hi _)
  · rw [roundIssued_snoc hsnoc, if_pos hround, R.issued i a hi, hissued]

/-- **A step of a driver keeps the rounds.** -/
theorem RoundInv.driver (R : s.RoundInv cfg) (I : s.MatchInv) (hi : heap s.halves i = some a)
    (hpc : a.driver.closed = true) (hpeer : a.driver.peer? = some p)
    (hstep : s.driverStep cfg i now a = some s') : s'.RoundInv cfg := by
  obtain ⟨b, hb, hab⟩ := I.second_of_peer hi hpeer
  have hw := R.written i a hi
  have hiss := R.issued i a hi
  unfold Written at hw
  unfold driverStep at hstep
  cases hh : a.driver <;> rw [hh] at hstep hpc hpeer hw hiss <;> dsimp only at hstep hw
  case sendSelf q => cases hpc
  case closePeer q => cases hpc
  case recv => cases hpeer
  case resolve => cases hpeer
  case returned => cases hpeer
  case granted q x y rr => cases hstep
  case allocSelf q =>
    obtain ⟨r, hr, rfl⟩ := Option.map_eq_some_iff.mp hstep
    refine R.allocate hi hr rfl ?_ (by rw [hh]; rfl)
    obtain ⟨relay, -, -, heq⟩ := allocate_eq hr
    rw [heq]
    exact hw
  case allocPeer q x =>
    obtain ⟨peer, -, hstep⟩ := Option.bind_eq_some_iff.mp hstep
    obtain ⟨r, hr, rfl⟩ := Option.map_eq_some_iff.mp hstep
    refine R.allocate hi hr rfl ?_ (by rw [hh]; rfl)
    obtain ⟨relay, -, -, heq⟩ := allocate_eq hr
    rw [heq]
    exact hw
  case successors q x y =>
    cases hstep
    exact R.advance hi (heap_modify hi _) (fun _ _ => ⟨rfl, rfl⟩) hw hiss
  case writeSelf q x y rr =>
    cases hstep
    refine R.advance hi (heap_modify hi _) (other_of_granted rfl rfl rfl) ?_ hiss
    refine (roundFrames_snoc rfl).trans ?_
    rw [if_pos rfl, hw]
    rfl
  case writePeer q x y rr =>
    obtain rfl : q = p := Option.some.inj hpeer
    rw [show s.halves[q]? = some b from hb, Option.bind_some] at hstep
    cases hstep
    refine R.advance hi (heap_modify hi _) (other_of_granted rfl rfl rfl) ?_ hiss
    refine ⟨b, ?_, ?_⟩
    · exact (congrFun (heap_modify hi _) q).trans
        ((Function.update_of_ne hab.ne _ _).trans hb)
    · refine (roundFrames_snoc rfl).trans ?_
      rw [if_pos rfl, hw]
      rfl

/-- The rounds are kept in every reachable state. -/
theorem roundInv_of_reachable {idleTTL pendingTTL start : Time}
    (hs : (forwardMachine cfg idleTTL pendingTTL start).Reachable s) : s.RoundInv cfg := by
  refine hs.invariant ⟨fun i a h => ?_, fun i a h => ?_, fun i _ => ⟨rfl, rfl⟩, fun i a h => ?_⟩
    (fun hr R hstep => ?_)
  · cases h
  · cases h
  · cases h
  · have I := matchInv_of_reachable hr
    rcases step_quiet I hstep with hq | ⟨i, now, a, p, -, hi, hcl, hpeer, hdrive⟩
    · exact R.quiet hq
    · exact R.driver I hi hcl hpeer hdrive

/-! ## Fresh allocation ids -/

/-- **The ids are issued in order**, from `1` on, while the counter of the plane
has not gone round. -/
def IssuedInv (s : ForwardState) : Prop :=
  s.issued.length < 2 ^ 32 - 1 → s.relay.forward.plane.Issued s.issued.length
    ∧ ∀ k e, s.issued[k]? = some e → e.fst.toNat = k + 1

/-- **A step keeps the ids in order.** -/
theorem issuedInv_step {e : ForwardEvent} (I : s.IssuedInv) (hstep : s.step cfg e = some s') :
    s'.IssuedInv := by
  -- a step of the plane that issues nothing
  have hkeep : ∀ {re : RelayEvent}, s.relay.step cfg.toRelayConfig re = some s'.relay →
      (∀ uri now, re ≠ .plane (.allocate uri now)) → s'.issued = s.issued → s'.IssuedInv := by
    intro re hrelay hre hissued hn
    rw [hissued] at hn ⊢
    obtain ⟨hplane, hids⟩ := I hn
    refine ⟨?_, hids⟩
    rcases RelayState.step_forward hrelay with heq | ⟨pe, hpe, hall⟩
    · rw [heq]
      exact hplane
    · refine PlaneState.issued_step hplane ?_ hpe
      cases pe with
      | allocate uri now => exact absurd (hall rfl) (hre uri now)
      | _ => rfl
  have hissue : ∀ {uri : AgentURI} {now : Time} {g : Grantee},
      s.relay.step cfg.toRelayConfig (.plane (.allocate uri.val now)) = some s'.relay →
      s'.issued = s.issued ++ [(Plane.nextAllocID s.relay.forward.plane.nextID, g)] →
      s'.IssuedInv := by
    intro uri now g hrelay hissued hn
    have hlen : s'.issued.length = s.issued.length + 1 := by
      rw [hissued, List.length_append, List.length_singleton]
    obtain ⟨hplane, hids⟩ := I (by omega)
    refine ⟨?_, fun k e hk => ?_⟩
    · unfold RelayState.step at hrelay
      dsimp only at hrelay
      split_ifs at hrelay
      unfold RelayState.planeStep at hrelay
      obtain ⟨f, hf, heq⟩ := Option.map_eq_some_iff.mp hrelay
      unfold PlaneState.step at hf
      dsimp only at hf
      split_ifs at hf
      obtain ⟨⟨q, id⟩, hq, rfl⟩ := Option.map_eq_some_iff.mp hf
      rw [← heq, hlen]
      exact (hplane.allocate (by omega) hq).2
    · rw [hissued] at hk
      rcases Nat.lt_trichotomy k s.issued.length with hlt | rfl | hgt
      · rw [List.getElem?_append_left hlt] at hk
        exact hids k e hk
      · rw [List.getElem?_concat_length] at hk
        cases hk
        have hnext := hplane.1
        rw [Plane.toNat_nextAllocID (by omega), hnext]
      · rw [List.getElem?_eq_none (by rw [List.length_append]; exact hgt)] at hk
        cases hk
  cases relayMove_of_step hstep with
  | still hrelay hissued =>
    intro hn
    rw [hissued] at hn ⊢
    rw [hrelay]
    exact I hn
  | own hown hrelay hissued =>
    refine hkeep hrelay ?_ hissued
    rintro uri now rfl
    cases hown
  | opened hpc hrelay hissued =>
    intro hn
    rw [hissued] at hn ⊢
    rw [hrelay]
    exact I hn
  | driver halloc hgrantee hrelay hissued => exact hissue hrelay hissued
  | openAlloc hk halloc hrelay hissued => exact hissue hrelay hissued
  | openForget hk hforget hrelay hissued =>
    exact hkeep hrelay (fun uri now h => by cases h) hissued

theorem issuedInv_of_reachable {idleTTL pendingTTL start : Time}
    (hs : (forwardMachine cfg idleTTL pendingTTL start).Reachable s) : s.IssuedInv := by
  refine hs.invariant (I := IssuedInv) (fun _ => ⟨⟨rfl, fun id u h => ?_⟩, fun k e h => ?_⟩)
    (fun _ I hstep => issuedInv_step I hstep)
  · cases h
  · cases h

/-- **No id is issued twice, and `0` never**, while the counter has not gone
round. -/
theorem IssuedInv.nodup (I : s.IssuedInv) (hn : s.issued.length < 2 ^ 32 - 1) :
    (s.issued.map Prod.fst).Nodup ∧ ∀ e ∈ s.issued, e.fst ≠ 0 := by
  obtain ⟨-, hids⟩ := I hn
  constructor
  · rw [List.nodup_iff_getElem?_ne_getElem?]
    intro j k hjk hk heq
    rw [List.length_map] at hk
    rw [List.getElem?_map, List.getElem?_map, List.getElem?_eq_getElem hk,
      List.getElem?_eq_getElem (hjk.trans hk)] at heq
    have hj := hids j _ (List.getElem?_eq_getElem (hjk.trans hk))
    have hk := hids k _ (List.getElem?_eq_getElem hk)
    rw [Option.some.inj heq, hk] at hj
    omega
  · intro e he h0
    obtain ⟨k, hk⟩ := List.mem_iff_getElem?.mp he
    have h := hids k e hk
    rw [h0] at h
    cases h

/-! ## Reading the outcome -/

/-- **What a handler reads is what was settled.** -/
theorem MatchInv.outcome_of_read (I : s.MatchInv) (hi : heap s.halves i = some a) {o : Outcome}
    (hr : a.read = some o) : a.outcome i = some o := by
  -- what a half that does not drive reads, by its flag
  have hother : a.Idle ∨ a.Released → o = Outcome.ofReceive a.timedOut none := by
    intro h
    rcases ForwardHalf.got_of_idle_or_released h with hg | hg
    · rw [ForwardHalf.read_of_got_none hg] at hr
      cases hr
    · rw [ForwardHalf.read_of_got hg] at hr
      exact (Option.some.inj hr).symm
  have hok := I.halves.party i a hi
  cases hf : a.fate with
  | parked =>
    rw [ForwardHalf.read_of_got_none (hok.parked hf).2.idle.2.1] at hr
    cases hr
  | expired =>
    rw [ForwardHalf.outcome_eq_timedOut.mpr hf]
    rcases (hok.expired hf).2 with ⟨-, -, h⟩ | ⟨-, -, h⟩ | ⟨-, ht, h⟩
    · rw [ForwardHalf.read_of_got_none h.2.1] at hr
      cases hr
    · rw [ForwardHalf.read_of_got_none h.2.1] at hr
      cases hr
    · rw [hother (Or.inr h), ht]
      rfl
  | matchedWith q =>
    obtain ⟨-, b, hb, hab | hab⟩ := hok.matched hf
    · rw [hab.outcome_second]
      rcases hab.second.got with ⟨hg, -⟩ | hg
      · rw [ForwardHalf.read_of_got_none hg] at hr
        cases hr
      · rw [ForwardHalf.read_of_got hg] at hr
        exact hr
    · rw [hab.outcome_first, hother hab.first.idle_or_released, hab.onTime.2]
      rfl

/-- The driver of a pair, by its outcome. -/
theorem MatchInv.second_of_outcome (I : s.MatchInv) (hi : heap s.halves i = some a)
    (ho : a.outcome i = some (.driver p)) : ∃ b, heap s.halves p = some b ∧ a.Paired i p b := by
  obtain ⟨hf, hlt⟩ := ForwardHalf.outcome_eq_driver.mp ho
  obtain ⟨b, hb, -, hab | hab⟩ := I.halves.partner hi hf
  · exact ⟨b, hb, hab⟩
  · exact absurd hab.fates.2.2.2 (Nat.lt_asymm hlt)

/-- The other half of a pair, by its outcome. -/
theorem MatchInv.first_of_outcome (I : s.MatchInv) (hp : heap s.halves p = some b)
    (ho : b.outcome p = some .nonDriver) : ∃ i a, heap s.halves i = some a ∧ a.Paired i p b := by
  cases hf : b.fate with
  | parked =>
    rw [ForwardHalf.outcome_eq_none.mpr hf] at ho
    cases ho
  | expired =>
    rw [ForwardHalf.outcome_eq_timedOut.mpr hf] at ho
    cases ho
  | matchedWith i =>
    obtain ⟨a, ha, -, hab | hab⟩ := I.halves.partner hp hf
    · rw [hab.outcome_second] at ho
      cases ho
    · exact ⟨i, a, ha, hab⟩

/-- **A step is still owed to the half at `i`**: the rest of its own `Submit`,
the close of its channel by its driver, or the flag and the close of its expiry
goroutine. -/
def Owed (s : ForwardState) (i : ℕ) (a : ForwardHalf) : Prop :=
  a.driver.closed = false ∨ a.expiry = some .setTimedOut ∨ a.expiry = some .closing
    ∨ ∃ j c, heap s.halves j = some c ∧ c.driver.peer? = some i ∧ c.driver.closed = false

theorem step_driver (cfg : ForwardConfig) (now : Time) (hcalm : s.panicked = false)
    (hi : heap s.halves i = some a) :
    s.step cfg (.driver i now) = s.driverStep cfg i now a := by
  unfold step
  rw [if_neg (by rw [hcalm]; exact Bool.false_ne_true)]
  dsimp only
  rw [show s.halves[i]? = some a from hi, Option.bind_some]

/-- A handler at its receive, with a message in the channel or the channel
closed, goes on. -/
theorem step_recv (cfg : ForwardConfig) (now : Time) (hcalm : s.panicked = false)
    (hi : heap s.halves i = some a) (hh : a.driver = .recv) {r : Option ℕ × GoChan ℕ}
    (hr : a.matched.recv = .done r) :
    ∃ s', s.step cfg (.driver i now) = some s'
      ∧ heap s'.halves i
        = some { a with matched := r.snd, got := some r.fst, driver := .resolve } := by
  rw [step_driver cfg now hcalm hi]
  unfold driverStep
  rw [hh]
  dsimp only
  rw [hr]
  exact ⟨_, rfl, by rw [heap_modify hi, Function.update_self]⟩

/-- **A half that has left `pending`, and to which nothing is owed, can read its
outcome**, or has read it. -/
theorem MatchInv.readable (I : s.MatchInv) (hi : heap s.halves i = some a)
    (hleft : s.pending.get a.id ≠ some i) (howed : ¬ s.Owed i a) :
    a.read = a.outcome i ∨ ∃ s' c, s.step cfg (.driver i now) = some s'
      ∧ heap s'.halves i = some c ∧ c.read = a.outcome i := by
  unfold Owed at howed
  simp only [not_or] at howed
  obtain ⟨hsub, hset, hclosing, hdrv⟩ := howed
  -- the channel is closed
  have hreleased : a.Released →
      a.outcome i = some (Outcome.ofReceive a.timedOut none) →
      a.read = a.outcome i ∨ ∃ s' c, s.step cfg (.driver i now) = some s'
        ∧ heap s'.halves i = some c ∧ c.read = a.outcome i := by
    rintro ⟨hm, ⟨hh, -⟩ | ⟨-, hg⟩⟩ ho
    · obtain ⟨s', hs', hc⟩ := step_recv cfg now I.calm hi hh
        (show a.matched.recv = .done (none, ⟨1, [], true⟩) by rw [hm]; rfl)
      exact Or.inr ⟨s', _, hs', hc, ho.symm⟩
    · rw [ForwardHalf.read_of_got hg, ho]
      exact Or.inl rfl
  have hok := I.halves.party i a hi
  cases hf : a.fate with
  | parked => exact absurd (hok.parked hf).1 hleft
  | expired =>
    rcases (hok.expired hf).2 with ⟨h, -⟩ | ⟨h, -⟩ | ⟨-, ht, hrel⟩
    · exact absurd h hset
    · exact absurd h hclosing
    · refine hreleased hrel ?_
      rw [ForwardHalf.outcome_eq_timedOut.mpr hf, ht]
      rfl
  | matchedWith q =>
    obtain ⟨-, b, hb, hab | hab⟩ := hok.matched hf
    · rcases hab.second.got with ⟨-, hcl | ⟨hh, hm⟩⟩ | hg
      · exact absurd hcl hsub
      · obtain ⟨s', hs', hc⟩ := step_recv cfg now I.calm hi hh
          (show a.matched.recv = .done (some q, ⟨1, [], false⟩) by rw [hm]; rfl)
        exact Or.inr ⟨s', _, hs', hc, hab.outcome_second.symm⟩
      · rw [ForwardHalf.read_of_got hg, hab.outcome_second]
        exact Or.inl rfl
    · refine hreleased ?_ (by rw [hab.outcome_first, hab.onTime.2]; rfl)
      have hfirst := hab.first
      unfold ForwardHalf.FirstOK at hfirst
      split_ifs at hfirst with hcl
      · exact hfirst
      · -- a driver that has not closed the channel is still in `Submit`
        refine absurd ⟨q, b, hb, ?_, Bool.eq_false_iff.mpr hcl⟩ hdrv
        have hsec := hab.second
        unfold ForwardHalf.SecondOK at hsec
        cases hh : b.driver <;> rw [hh] at hsec hcl
        case sendSelf => rw [hsec.1]; rfl
        case closePeer => rw [hsec.1]; rfl
        all_goals exact absurd rfl hcl

/-- **A half expires in the step in which its window elapses**, and stays
expired. -/
theorem expired_step {e : ForwardEvent} (I : s.MatchInv) (hstep : s.step cfg e = some s') :
    (∃ a, heap s'.halves i = some a ∧ a.fate = .expired)
      ↔ (∃ a, heap s.halves i = some a ∧ a.fate = .expired) ∨ s.Elapses e i := by
  -- only the expiry goroutine makes a half expire
  have hsettle : s.Settles e i .expired → s.Elapses e i := by
    rintro (⟨-, h⟩ | ⟨ac, id, p, -, -, ⟨-, h⟩ | ⟨-, h⟩⟩)
    · exact h
    · cases h
    · cases h
  have hevol := evolves_step I hstep
  have hne : ∀ {c : ForwardHalf}, c.fate = .expired → c.fate ≠ .parked := by
    intro c hf h
    cases hf.symm.trans h
  constructor
  · rintro ⟨a, hi, hf⟩
    rcases hevol.of_fate hi (hne hf) with ⟨c, hc, -, hfc⟩ | h
    · exact Or.inl ⟨c, hc, hfc.trans hf⟩
    · exact Or.inr (hsettle (hf ▸ h))
  · rintro (⟨c, hc, hf⟩ | ⟨rfl, b, hb, hfired, hpend⟩)
    · obtain ⟨d, hd, -, hfd⟩ := hevol.settled hc (hne hf)
      exact ⟨d, hd, hfd.trans hf⟩
    · unfold step at hstep
      rw [if_neg (by rw [I.calm]; exact Bool.false_ne_true)] at hstep
      dsimp only at hstep
      rw [show s.halves[i]? = some b from hb, Option.bind_some] at hstep
      unfold windowStep at hstep
      rw [hfired] at hstep
      dsimp only at hstep
      rw [if_pos hpend] at hstep
      cases hstep
      exact ⟨_, (congrFun (heap_modify hb _) i).trans (Function.update_self _ _ _), rfl⟩

/-- **A half has expired exactly when its window elapsed while it waited.** -/
theorem expired_iff {idleTTL pendingTTL start : Time}
    {h : List (Transition ForwardState ForwardEvent)}
    (hx : (forwardMachine cfg idleTTL pendingTTL start).Exec h s) :
    (∃ a, heap s.halves i = some a ∧ a.fate = .expired) ↔ ∃ t ∈ h, t.pre.Elapses t.ev i := by
  induction hx with
  | nil =>
    constructor
    · rintro ⟨a, ha, -⟩
      cases ha
    · rintro ⟨t, ht, -⟩
      cases ht
  | @snoc h s s' e hx hstep ih =>
    rw [expired_step (matchInv_of_reachable ⟨h, hx⟩) hstep, ih]
    simp only [List.mem_append, List.mem_singleton, or_and_right, exists_or, exists_eq_left]

/-- The flag of a half: set exactly where its window has elapsed and its expiry
goroutine has set it. -/
theorem MatchInv.timedOut_iff (I : s.MatchInv) (hi : heap s.halves i = some a) :
    a.timedOut = true ↔ a.fate = .expired ∧ a.expiry ≠ some .setTimedOut := by
  have hok := I.halves.party i a hi
  cases hf : a.fate with
  | parked =>
    rw [(hok.parked hf).2.window.2]
    simp
  | expired =>
    rcases (hok.expired hf).2 with ⟨hx, ht, -⟩ | ⟨hx, ht, -⟩ | ⟨hx, ht, -⟩ <;> rw [hx, ht] <;> simp
  | matchedWith q =>
    obtain ⟨-, b, hb, hab | hab⟩ := hok.matched hf
    · rw [hab.onTime.1]
      simp
    · rw [hab.onTime.2]
      simp

/-- Nothing keeps the expiry goroutine of an expired half from setting its
flag. -/
theorem MatchInv.flagged (I : s.MatchInv) (hi : heap s.halves i = some a)
    (hf : a.fate = .expired) : a.timedOut = true ∨ ∃ s' c, s.step cfg (.window i) = some s'
      ∧ heap s'.halves i = some c ∧ c.timedOut = true := by
  rcases ((I.halves.party i a hi).expired hf).2 with ⟨hx, -⟩ | ⟨-, ht, -⟩ | ⟨-, ht, -⟩
  · refine Or.inr ⟨s.modifyHalf i (fun h => { h with timedOut := true, expiry := some .closing }),
      _, ?_, (congrFun (heap_modify hi _) i).trans (Function.update_self _ _ _), rfl⟩
    unfold step
    rw [if_neg (by rw [I.calm]; exact Bool.false_ne_true)]
    dsimp only
    rw [show s.halves[i]? = some a from hi, Option.bind_some]
    unfold windowStep
    rw [hx]
  · exact Or.inl ht
  · exact Or.inl ht

/-! ## The round takes place -/

/-- `Allocate` can be called at any time from the last reading of the clock on. -/
theorem allocate_isSome (hfwd : cfg.forward = true) (hclock : s.relay.forward.clock ≤ now)
    (uri : AgentURI) (g : Grantee) :
    ∃ r, s.allocate cfg uri now g = some r ∧ r.fst.halves = s.halves
      ∧ r.fst.relay.forward.clock ≤ now := by
  unfold allocate RelayState.step
  dsimp only
  rw [if_pos hfwd]
  unfold RelayState.planeStep PlaneState.step
  dsimp only
  rw [if_pos hclock]
  unfold Plane.allocate
  rw [if_neg uri.property]
  exact ⟨_, rfl, rfl, le_refl now⟩

/-- **Nothing keeps a driver from its grant round**: its goroutine can take a
step, and is then nearer to the end. -/
theorem driver_progress (I : s.MatchInv) (hfwd : cfg.forward = true)
    (hclock : s.relay.forward.clock ≤ now) (hi : heap s.halves i = some a)
    (hp : heap s.halves p = some b) (hab : a.Paired i p b) (hnot : a.driver.toGrant ≠ 0) :
    ∃ s' c, s.step cfg (.driver i now) = some s' ∧ heap s'.halves i = some c
      ∧ c.driver.toGrant < a.driver.toGrant ∧ s'.relay.forward.clock ≤ now := by
  have hself : ∀ {t : ForwardState} (f : ForwardHalf → ForwardHalf), t.halves = s.halves →
      heap (t.modifyHalf i f).halves i = some (f a) := by
    intro t f ht
    rw [heap_modify (ht ▸ hi), Function.update_self]
  have hsec := hab.second
  have hfirst := hab.first
  have hget : s.halves[p]? = some b := hp
  unfold ForwardHalf.SecondOK at hsec
  rw [step_driver cfg now I.calm hi]
  unfold driverStep
  cases hh : a.driver <;> rw [hh] at hsec hnot hfirst <;> dsimp only
  case sendSelf q =>
    rw [hsec.2.1]
    exact ⟨_, _, rfl, hself _ rfl, Nat.lt_succ_self _, hclock⟩
  case closePeer q =>
    obtain ⟨rfl, -⟩ := hsec
    have hidle : b.Idle := hfirst
    rw [hget, Option.bind_some, hidle.2.2]
    exact ⟨_, _, rfl, (congrFun (heap_modify_two hab.ne hp hi _ _) i).trans
      (Function.update_self _ _ _), Nat.lt_succ_self _, hclock⟩
  case recv =>
    rw [hsec.1]
    exact ⟨_, _, rfl, hself _ rfl, Nat.lt_succ_self _, hclock⟩
  case resolve =>
    rw [hsec]
    exact ⟨_, _, rfl, hself _ rfl, Nat.lt_succ_self _, hclock⟩
  case allocSelf q =>
    obtain ⟨r, hr, hhalves, hnow⟩ := allocate_isSome hfwd hclock a.agentURI (.driverSelf i)
    rw [hr]
    exact ⟨_, _, rfl, hself _ hhalves, Nat.lt_succ_self _, hnow⟩
  case allocPeer q x =>
    obtain ⟨rfl, -⟩ := hsec
    obtain ⟨r, hr, hhalves, hnow⟩ := allocate_isSome hfwd hclock b.agentURI (.driverPeer i)
    rw [hget, Option.bind_some, hr]
    exact ⟨_, _, rfl, hself _ hhalves, Nat.lt_succ_self _, hnow⟩
  case successors => exact ⟨_, _, rfl, hself _ rfl, Nat.lt_succ_self _, hclock⟩
  case writeSelf => exact ⟨_, _, rfl, hself _ rfl, Nat.lt_succ_self _, hclock⟩
  case writePeer q x y rr =>
    obtain ⟨rfl, -⟩ := hsec
    rw [hget, Option.bind_some]
    exact ⟨_, _, rfl, hself _ rfl, Nat.lt_succ_self _, hclock⟩
  case granted => exact absurd rfl hnot
  case returned => exact absurd rfl hnot

/-- The two frames of a round. -/
def roundOf (cfg : ForwardConfig) (i : ℕ) (a b : ForwardHalf) (x y : UInt32) (rr : List GoString) :
    List Grant :=
  [⟨i, a.ac, ⟨a.id, x, y, cfg.endpoint, rr⟩⟩, ⟨i, b.ac, ⟨a.id, y, x, cfg.endpoint, rr⟩⟩]

/-- **From any state on, a driver finishes its grant round**: some number of its
own steps, with nobody else's, takes it to the end. -/
theorem round_runs {idleTTL pendingTTL start : Time}
    (hs : (forwardMachine cfg idleTTL pendingTTL start).Reachable s)
    (hclock : s.relay.forward.clock ≤ now) (hi : heap s.halves i = some a)
    (hp : heap s.halves p = some b) (hab : a.Paired i p b) :
    ∃ n s' x y rr, (forwardMachine cfg idleTTL pendingTTL start).run
        (List.replicate n (.driver i now)) s = some s'
      ∧ s'.roundFrames i = roundOf cfg i a b x y rr := by
  -- by induction on how far the driver is from the end of its round
  induction hn : a.driver.toGrant using Nat.strong_induction_on generalizing s a b with
  | _ n ih =>
    have I := matchInv_of_reachable hs
    have R := roundInv_of_reachable hs
    by_cases hend : a.driver.toGrant = 0
    · have hsec := hab.second
      have hw := R.written i a hi
      unfold ForwardHalf.SecondOK at hsec
      unfold Written at hw
      cases hh : a.driver <;> rw [hh] at hend hsec hw
      case granted q x y rr =>
        obtain ⟨rfl, -⟩ := hsec
        obtain ⟨b', hb', hw⟩ := hw
        cases hp.symm.trans hb'
        exact ⟨0, s, x, y, rr, rfl, hw⟩
      case returned => exact hsec.elim
      all_goals cases hend
    · obtain ⟨s₁, c, hstep, hc, hless, hclock₁⟩ :=
        driver_progress I (R.plane i a hi) hclock hi hp hab hend
      have hevol := evolves_step I hstep
      obtain ⟨c', hc', hac, hfc⟩ := hevol.settled hi
        (fun h => by cases h.symm.trans hab.fates.1)
      cases hc.symm.trans hc'
      obtain ⟨d, hd, hbd, -⟩ := hevol.old p b hp
      have hfate : c.fate = .matchedWith p := hfc.trans hab.fates.1
      obtain ⟨d', hd', hcd⟩ := (matchInv_step I hstep).second_of_outcome hc
        (ForwardHalf.outcome_eq_driver.mpr ⟨hfate, hab.fates.2.2.2⟩)
      cases hd.symm.trans hd'
      obtain ⟨m, s', x, y, rr, hrun, hframes⟩ := ih _ (hn ▸ hless)
        (hs.step (e := .driver i now) hstep) hclock₁ hc hd hcd rfl
      refine ⟨m + 1, s', x, y, rr, ?_, ?_⟩
      · rw [List.replicate_succ]
        show (s.step cfg (.driver i now)).bind _ = _
        rw [hstep]
        exact hrun
      · rw [hframes]
        unfold roundOf
        rw [hac.1, hac.2.2, hbd.2.2]

/-- **Every half is resolved once, and every pair has one grant round**, as a
state shows it. -/
structure ResolvedOnce (cfg : ForwardConfig) (s : ForwardState) : Prop where
  /-- No channel has been closed twice, or sent on after its close. -/
  calm : s.panicked = false
  /-- A half has an outcome once it has left `pending`. -/
  left : ∀ (i : ℕ) (a : ForwardHalf), s.halves[i]? = some a →
    (a.outcome i = none ↔ s.pending.get a.id = some i)
  /-- Its handler reads that one. -/
  read : ∀ (i : ℕ) (a : ForwardHalf) (o : Outcome), s.halves[i]? = some a → a.read = some o →
    a.outcome i = some o
  /-- It can read it once nothing is owed to the half. -/
  readable : ∀ (i : ℕ) (a : ForwardHalf) (now : Time), s.halves[i]? = some a →
    s.pending.get a.id ≠ some i → ¬ s.Owed i a →
      a.read = a.outcome i ∨ ∃ s' c, s.step cfg (.driver i now) = some s'
        ∧ s'.halves[i]? = some c ∧ c.read = a.outcome i
  /-- The peer of a driver is a half of the same stream that was submitted
  earlier, drives nothing, and has no other driver. -/
  driver : ∀ (i p : ℕ) (a : ForwardHalf), s.halves[i]? = some a → a.outcome i = some (.driver p) →
    ∃ b, s.halves[p]? = some b ∧ b.outcome p = some .nonDriver ∧ b.id = a.id ∧ p < i
      ∧ ∀ (j : ℕ) (c : ForwardHalf), s.halves[j]? = some c → c.outcome j = some (.driver p) → j = i
  /-- Every half that drives nothing has a driver. -/
  nonDriver : ∀ (p : ℕ) (b : ForwardHalf), s.halves[p]? = some b → b.outcome p = some .nonDriver →
    ∃ (i : ℕ) (a : ForwardHalf), s.halves[i]? = some a ∧ a.outcome i = some (.driver p)
  /-- `timedOut` is the flag of the halves that have timed out, from the step that
  sets it on; and nothing keeps that step from being taken. -/
  timedOut : ∀ (i : ℕ) (a : ForwardHalf), s.halves[i]? = some a →
    (a.timedOut = true ↔ a.outcome i = some .timedOut ∧ a.expiry ≠ some .setTimedOut)
      ∧ (a.outcome i = some .timedOut → a.timedOut = true
        ∨ ∃ s' c, s.step cfg (.window i) = some s' ∧ s'.halves[i]? = some c ∧ c.timedOut = true)
  /-- Only drivers write frames. -/
  rounds : ∀ g ∈ s.granted, ∃ (a : ForwardHalf) (p : ℕ), s.halves[g.round]? = some a
    ∧ a.outcome g.round = some (.driver p)
  /-- What a driver has written is the round of its pair, or the beginning of it,
  and the two ids of the round have been issued for it; they differ, are not `0`,
  and have been issued once, while the counter has not gone round. -/
  round : ∀ (i p : ℕ) (a b : ForwardHalf), s.halves[i]? = some a →
    a.outcome i = some (.driver p) → s.halves[p]? = some b →
      s.roundFrames i = [] ∨ ∃ x y rr, s.roundFrames i <+: roundOf cfg i a b x y rr
        ∧ s.roundIssued i = [(x, .driverSelf i), (y, .driverPeer i)]
        ∧ (s.issued.length < 2 ^ 32 - 1 → x ≠ y ∧ x ≠ 0 ∧ y ≠ 0
          ∧ (s.issued.map Prod.fst).count x = 1 ∧ (s.issued.map Prod.fst).count y = 1)

/-- Where there are frames, the goroutine of the half has written them. -/
theorem Written.peer_of_ne_nil (h : s.Written cfg i a) (hne : s.roundFrames i ≠ []) :
    ∃ p x y rr, a.driver = .writePeer p x y rr ∨ a.driver = .granted p x y rr := by
  unfold Written at h
  cases hh : a.driver <;> rw [hh] at h
  case writePeer p x y rr => exact ⟨p, x, y, rr, Or.inl rfl⟩
  case granted p x y rr => exact ⟨p, x, y, rr, Or.inr rfl⟩
  all_goals exact absurd h hne

/-- **The frames of a round**, with the ids that were issued for it. -/
theorem RoundInv.frames (R : s.RoundInv cfg) (hi : heap s.halves i = some a)
    (hp : heap s.halves p = some b) (hab : a.Paired i p b) :
    s.roundFrames i = [] ∨ ∃ x y rr, s.roundFrames i <+: roundOf cfg i a b x y rr
      ∧ s.roundIssued i = [(x, .driverSelf i), (y, .driverPeer i)] := by
  by_cases hnil : s.roundFrames i = []
  · exact Or.inl hnil
  · have hw := R.written i a hi
    have hiss := R.issued i a hi
    have hsec := hab.second
    obtain ⟨q, x, y, rr, hh⟩ := hw.peer_of_ne_nil hnil
    refine Or.inr ⟨x, y, rr, ?_⟩
    unfold Written at hw
    unfold ForwardHalf.SecondOK at hsec
    unfold roundOf
    rcases hh with hh | hh
    · rw [hh] at hw hiss
      rw [hw, hiss]
      exact ⟨List.cons_prefix_cons.mpr ⟨rfl, List.nil_prefix⟩, rfl⟩
    · rw [hh] at hw hiss hsec
      obtain ⟨rfl, -⟩ := hsec
      obtain ⟨b', hb', hw⟩ := hw
      cases hp.symm.trans hb'
      rw [hw, hiss]
      exact ⟨List.prefix_rfl, rfl⟩

/-- **The two ids of a round are fresh**, while the counter has not gone round. -/
theorem IssuedInv.fresh (I : s.IssuedInv) (hn : s.issued.length < 2 ^ 32 - 1) {x y : UInt32}
    (hround : s.roundIssued i = [(x, .driverSelf i), (y, .driverPeer i)]) :
    x ≠ y ∧ x ≠ 0 ∧ y ≠ 0 ∧ (s.issued.map Prod.fst).count x = 1
      ∧ (s.issued.map Prod.fst).count y = 1 := by
  obtain ⟨hnd, h0⟩ := I.nodup hn
  have hsub : [(x, Grantee.driverSelf i), (y, .driverPeer i)].Sublist s.issued :=
    hround ▸ List.filter_sublist
  have hx := hsub.subset (List.mem_cons_self)
  have hy := hsub.subset (List.mem_cons_of_mem _ (List.mem_singleton_self _))
  refine ⟨?_, h0 _ hx, h0 _ hy, List.count_eq_one_of_mem hnd (List.mem_map_of_mem hx),
    List.count_eq_one_of_mem hnd (List.mem_map_of_mem hy)⟩
  have hpair : [x, y].Nodup := hnd.sublist (hsub.map Prod.fst)
  simpa using hpair

theorem resolvedOnce_of_reachable {idleTTL pendingTTL start : Time}
    (hs : (forwardMachine cfg idleTTL pendingTTL start).Reachable s) : s.ResolvedOnce cfg := by
  have I := matchInv_of_reachable hs
  have R := roundInv_of_reachable hs
  exact
    { calm := I.calm
      left := fun i a hi => by
        rw [ForwardHalf.outcome_eq_none]
        exact ⟨fun hf => ((I.halves.party i a hi).parked hf).1,
          fun hw => (I.halves.key_of_waiting hi hw).2⟩
      read := fun i a o hi hr => I.outcome_of_read hi hr
      readable := fun i a now hi hleft howed => I.readable hi hleft howed
      driver := fun i p a hi ho => by
        obtain ⟨b, hb, hab⟩ := I.second_of_outcome hi ho
        refine ⟨b, hb, hab.outcome_first, hab.fates.2.2.1.symm, hab.fates.2.2.2,
          fun j c hj hoj => ?_⟩
        obtain ⟨b', hb', hcb⟩ := I.second_of_outcome hj hoj
        cases hb.symm.trans hb'
        exact (Fate.matchedWith.inj (hab.fates.2.1.symm.trans hcb.fates.2.1)).symm
      nonDriver := fun p b hp ho => by
        obtain ⟨i, a, hi, hab⟩ := I.first_of_outcome hp ho
        exact ⟨i, a, hi, hab.outcome_second⟩
      timedOut := fun i a hi => by
        rw [ForwardHalf.outcome_eq_timedOut]
        exact ⟨I.timedOut_iff hi, I.flagged hi⟩
      rounds := fun g hg => by
        have hne : s.roundFrames g.round ≠ [] :=
          List.ne_nil_of_mem (List.mem_filter.mpr ⟨hg, decide_eq_true rfl⟩)
        cases ha : heap s.halves g.round with
        | none => exact absurd (R.none _ ha).1 hne
        | some a =>
          obtain ⟨p, x, y, rr, hh⟩ := (R.written _ a ha).peer_of_ne_nil hne
          obtain ⟨b, hb, hab⟩ := I.second_of_peer ha (p := p)
            (by rcases hh with h | h <;> rw [h] <;> rfl)
          exact ⟨a, p, ha, hab.outcome_second⟩
      round := fun i p a b hi ho hp => by
        obtain ⟨b', hb', hab⟩ := I.second_of_outcome hi ho
        cases hb'.symm.trans hp
        refine (R.frames hi hp hab).imp_right ?_
        rintro ⟨x, y, rr, hframes, hissued⟩
        exact ⟨x, y, rr, hframes, hissued, fun hn => (issuedInv_of_reachable hs).fresh hn hissued⟩ }

end ForwardState

/-- **Every half is resolved once, and every pair has one grant round.** In
every state of every run, the outcomes of the halves are as `ResolvedOnce`
says. Along a run an outcome, once settled, stays. A half has timed out exactly
when its window elapsed while it was the one that waits under its id. And from
any state on, nothing keeps a driver from finishing the round of its pair. -/
theorem one_grant_round_per_pair {cfg : ForwardConfig} {idleTTL pendingTTL start : Time}
    {h : List (Transition ForwardState ForwardEvent)} {s : ForwardState}
    (hx : (forwardMachine cfg idleTTL pendingTTL start).Exec h s) :
    s.ResolvedOnce cfg
      ∧ (∀ t ∈ h, ∀ (i : ℕ) (a : ForwardHalf) (o : Outcome), t.pre.halves[i]? = some a →
        a.outcome i = some o → ∃ c, t.post.halves[i]? = some c ∧ c.outcome i = some o)
      ∧ (∀ (i : ℕ) (a : ForwardHalf), s.halves[i]? = some a →
        (a.outcome i = some .timedOut ↔ ∃ t ∈ h, t.pre.Elapses t.ev i))
      ∧ ∀ (i p : ℕ) (a b : ForwardHalf) (now : Time), s.halves[i]? = some a →
        a.outcome i = some (.driver p) → s.halves[p]? = some b → s.relay.forward.clock ≤ now →
        ∃ n s' x y rr, (forwardMachine cfg idleTTL pendingTTL start).run
            (List.replicate n (.driver i now)) s = some s'
          ∧ s'.roundFrames i = ForwardState.roundOf cfg i a b x y rr := by
  have hs : (forwardMachine cfg idleTTL pendingTTL start).Reachable s := ⟨h, hx⟩
  refine ⟨ForwardState.resolvedOnce_of_reachable hs, ?_, ?_, ?_⟩
  · intro t ht i a o hi ho
    obtain ⟨hr, hstep⟩ := hx.step_of_mem ht
    have hevol := ForwardState.evolves_step (ForwardState.matchInv_of_reachable hr) hstep
    have hne : a.fate ≠ .parked := by
      intro hf
      rw [ForwardHalf.outcome_eq_none.mpr hf] at ho
      cases ho
    obtain ⟨c, hc, -, hfc⟩ := hevol.settled hi hne
    refine ⟨c, hc, ?_⟩
    unfold ForwardHalf.outcome at ho ⊢
    rw [show c.fate = a.fate from hfc]
    exact ho
  · intro i a hi
    rw [ForwardHalf.outcome_eq_timedOut, ← ForwardState.expired_iff hx]
    constructor
    · exact fun hf => ⟨a, hi, hf⟩
    · rintro ⟨a', hi', hf⟩
      cases hi.symm.trans hi'
      exact hf
  · intro i p a b now hi ho hp hclock
    obtain ⟨b', hb', hab⟩ := (ForwardState.matchInv_of_reachable hs).second_of_outcome hi ho
    cases hb'.symm.trans hp
    exact ForwardState.round_runs hs hclock hi hp hab

/-- A relay with a forwarding plane, to which two agents connect. -/
def relayR2 : ForwardConfig where
  relayID := go "outrelay://acme/relay/r2"
  parse := fun _ => some ⟨go "acme", false⟩
  forward := true
  endpoint := go "192.0.2.1:7443"

/-- Another agent. -/
def agentD : AgentURI := ⟨go "outrelay://acme/agent/d1", by decide⟩

/-- Two agents connect, and each resumes stream `9`. -/
def bothResume : List ForwardEvent :=
  [.relay (.register agentC), .relay (.track 0), .relay (.register agentD), .relay (.track 1),
    .submit 0 9, .submit 1 9]

/-- The second of two halves drives, and has finished the round of the pair. -/
theorem two_halves_granted_once :
    ∃ h s, (forwardMachine relayR2 100 30 0).Exec h s ∧ s.ResolvedOnce relayR2
      ∧ s.issued.length < 2 ^ 32 - 1
      ∧ s.granted = [⟨1, 1, ⟨9, 1, 2, go "192.0.2.1:7443", []⟩⟩,
        ⟨1, 0, ⟨9, 2, 1, go "192.0.2.1:7443", []⟩⟩]
      ∧ s.halves.map ForwardHalf.read = [some .nonDriver, some (.driver 0)] := by
  obtain ⟨s, hrun, hlen, hgranted, hread⟩ : ∃ s, (forwardMachine relayR2 100 30 0).run
      (bothResume ++ List.replicate 9 (.driver 1 5) ++ [.driver 0 5])
        (forwardMachine relayR2 100 30 0).init = some s
      ∧ s.issued.length = 2
      ∧ s.granted = [⟨1, 1, ⟨9, 1, 2, go "192.0.2.1:7443", []⟩⟩,
        ⟨1, 0, ⟨9, 2, 1, go "192.0.2.1:7443", []⟩⟩]
      ∧ s.halves.map ForwardHalf.read = [some .nonDriver, some (.driver 0)] :=
    ⟨_, rfl, rfl, rfl, rfl⟩
  obtain ⟨h, hx, -⟩ := Machine.exec_of_run _ _ hrun
  exact ⟨h, s, hx, (one_grant_round_per_pair hx).1, by rw [hlen]; decide, hgranted, hread⟩
