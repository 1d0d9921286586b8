import OutRelay.MigratedTable

/-!
# The deadline of a required promotion

`enforceRequiredPromotion` has two ways to learn that its stream has left the
relay in time: a tick that finds the stream's entry, and the end of its
context. The third branch of its `select`, the deadline, closes the consumer
stream without a look at the table. So what keeps a promoted stream open is not
that the promotion was recorded before the deadline, but that a tick was
handled in between. Where one was, the enforcement has returned and no deadline
is left to handle; where none was – the frame came after the last tick, the
timeout is shorter than a tick, or both channels were ready and `select` took
the deadline – the stream is closed although its agents have promoted it.

The runs are those of the promotion machine. What the table has under an id is
read off the run (`RecordedAt`): the latest `Note` or `Discard` on the id is a
`Note`, and it is younger than `MigrationTTL`. By `sameFrom_lastWrite` that is
what a `Lookup` finds.
-/

namespace PromotionState

/-- What a step writes to the table of migrated streams. -/
def migratedWrite (t : Transition PromotionState PromotionEvent) :
    Option (Write UInt64 MigratedStream) :=
  match t.ev with
  | .migrateToP2P i sid now _ _ =>
    (t.pre.relay.loopAgent i).map (fun ac =>
      let pair := migratedPair (t.pre.table.pairs.get sid) ac.val
      .put sid ⟨pair.consumerURI, pair.providerURI, now⟩)
  | .rematched k =>
    (t.pre.demotions[k]?).bind (fun d => if d.prior then some (.erase d.streamID) else none)
  | _ => none

/-- **A `MIGRATE_TO_P2P` for the id was recorded** by the `m`-th step, at time
`noted`, and the id has been neither noted again nor discarded since. -/
def RecordedAt (h : List (Transition PromotionState PromotionEvent)) (m : ℕ) (sid : UInt64)
    (noted : Time) : Prop :=
  At h m (fun t => ∃ i now' order, t.ev = .migrateToP2P i sid noted now' order)
    ∧ Since h (m + 1) (Write.Spares migratedWrite sid)

/-- **Only streams without a record are closed.** Where a step has an
enforcement close its stream, the table has no record for the stream that is
younger than `MigrationTTL`. -/
def ClosesUnpromoted (h : List (Transition PromotionState PromotionEvent)) : Prop :=
  ∀ (n : ℕ) (t : Transition PromotionState PromotionEvent) (k : ℕ) (x x' : Enforcement),
    h[n]? = some t → t.pre.enforcements[k]? = some x → x.pc = .armed →
      t.post.enforcements[k]? = some x' → x'.pc = .timedOut →
      ∀ m noted, RecordedAt (h.take n) m x.streamID noted →
        migrationTTL ≤ t.post.clock - noted

/-- **A tick comes before the deadline.** Where the deadline of an enforcement
is handled, every record for its stream that is younger than `MigrationTTL` was
made before a tick of the enforcement. -/
def TickBeforeDeadline (h : List (Transition PromotionState PromotionEvent)) : Prop :=
  ∀ (n : ℕ) (t : Transition PromotionState PromotionEvent) (k : ℕ) (now : Time) (x : Enforcement),
    h[n]? = some t → t.ev = .deadline k now → t.pre.enforcements[k]? = some x →
      ∀ m noted, RecordedAt (h.take n) m x.streamID noted → now - noted < migrationTTL →
        ∃ j, m < j ∧ At (h.take n) j (fun u => ∃ now', u.ev = .tick k now')

variable {cfg : PromotionConfig} {s s' : PromotionState} {e : PromotionEvent} {x : Enforcement}
  {k : ℕ}

/-! ## What a step does -/

/-- **The enforcements across a step.** One that has returned does not start
again, and one closes its stream at its deadline only. -/
def Settles (s : PromotionState) (e : PromotionEvent) (s' : PromotionState) : Prop :=
  ∀ (k : ℕ) (x : Enforcement), s.enforcements[k]? = some x →
    ∃ pc, s'.enforcements[k]? = some { x with pc := pc } ∧ (x.pc ≠ .armed → pc ≠ .armed)
      ∧ (x.pc = .armed → pc = .timedOut → e = .deadline k s'.clock)

theorem settles_of_eq (henf : s'.enforcements = s.enforcements) : Settles s e s' := by
  intro k x hx
  refine ⟨x.pc, henf ▸ hx, fun h => h, fun harmed hpc => ?_⟩
  rw [harmed] at hpc
  cases hpc

theorem settles_append {xs : List Enforcement} (henf : s'.enforcements = s.enforcements ++ xs) :
    Settles s e s' := by
  intro k x hx
  have hlt := (List.getElem?_eq_some_iff.mp hx).1
  refine ⟨x.pc, ?_, fun h => h, fun harmed hpc => ?_⟩
  · rw [henf, List.getElem?_append_left hlt]
    exact hx
  · rw [harmed] at hpc
    cases hpc

/-- An enforcement returns. -/
theorem settles_setPC {pc : EnforcePC} {migrated : MigratedLRU} {now : Time} (hpc : pc ≠ .armed)
    (hdeadline : pc = .timedOut → e = .deadline k now) :
    Settles s e { s.setPC k pc with migrated := migrated, clock := now } := by
  intro j y hy
  have hset : ({ s.setPC k pc with migrated := migrated, clock := now } :
      PromotionState).enforcements[j]? = some (if k = j then { y with pc := pc } else y) := by
    show (s.enforcements.modify k (fun x => { x with pc := pc }))[j]? = _
    rw [List.getElem?_modify, hy]
    rfl
  by_cases hkj : k = j
  · subst hkj
    rw [if_pos rfl] at hset
    exact ⟨pc, hset, fun _ => hpc, fun _ => hdeadline⟩
  · rw [if_neg hkj] at hset
    refine ⟨y.pc, hset, fun h => h, fun harmed hpc => ?_⟩
    rw [harmed] at hpc
    cases hpc

/-- **A step moves the clock forwards, writes to the table of migrated streams
what it writes, and settles the enforcements.** -/
structure Advances (s : PromotionState) (e : PromotionEvent) (s' : PromotionState) : Prop where
  clock : s.clock ≤ s'.clock
  same : migrationExpiry.SameFrom s'.clock s'.migrated.get
    (Write.after (migratedWrite ⟨s, e, s'⟩) s.migrated.get)
  settles : Settles s e s'

/-- A step that has no part in promotion. -/
theorem Advances.of_eq (hw : migratedWrite ⟨s, e, s'⟩ = none) (hmig : s'.migrated = s.migrated)
    (hclock : s.clock ≤ s'.clock) (hset : Settles s e s') : Advances s e s' := by
  refine ⟨hclock, ?_, hset⟩
  rw [hw, hmig]
  exact Expiry.SameFrom.refl _ _

theorem advances_of_step (hstep : s.step cfg e = some s') : Advances s e s' := by
  cases acts_of_step hstep with
  | relay | splicePair | finish => exact .of_eq rfl rfl le_rfl (settles_of_eq rfl)
  | @openStream caller sid provider uri callerMode calleeMode now huri hnow =>
    obtain ⟨-, hmig, hclock, henf⟩ := openStream_eq s uri sid provider
      (combineP2PModes callerMode calleeMode) now
    refine .of_eq rfl hmig (hclock.symm ▸ hnow) ?_
    split_ifs at henf
    · exact settles_append henf
    · exact settles_of_eq henf
  | @candidate i kind sid written src hsrc =>
    obtain ⟨delivered, heq⟩ := s.forwardCandidate_eq src kind sid written
    rw [heq]
    exact .of_eq rfl rfl le_rfl (settles_of_eq rfl)
  | @migrateToP2P i sid now now' order ac hac hnow hnow' horder =>
    refine ⟨hnow.trans hnow', ?_, settles_of_eq rfl⟩
    rw [show migratedWrite ⟨s, .migrateToP2P i sid now now' order, _⟩ = some _ from
      congrArg (Option.map _) hac]
    exact MigratedLRU.sameFrom_note horder
  | @migrateToRelay sid now hnow =>
    exact ⟨hnow, MigratedLRU.sameFrom_lookup s.migrated sid now, settles_of_eq rfl⟩
  | @rematched k d hd hprior =>
    refine ⟨le_rfl, ?_, settles_of_eq rfl⟩
    rw [show migratedWrite ⟨s, .rematched k, _⟩ = some (.erase d.streamID) by
      simp only [migratedWrite, hd, Option.bind_some, if_pos hprior]]
    show migrationExpiry.SameFrom _ (MigratedLRU.discard s.migrated d.streamID).get _
    rw [MigratedLRU.get_discard_eq_apply]
    exact Expiry.SameFrom.refl _ _
  | rematchedNone hd hprior =>
    refine .of_eq ?_ rfl le_rfl (settles_of_eq rfl)
    simp only [migratedWrite, hd, Option.bind_some, if_neg hprior]
  | @found k now x _ hx harmed hnow hfound =>
    exact ⟨hnow, MigratedLRU.sameFrom_lookup s.migrated x.streamID now,
      settles_setPC EnforcePC.noConfusion EnforcePC.noConfusion⟩
  | @missed k now x hx harmed hnow hmissed =>
    exact ⟨hnow, MigratedLRU.sameFrom_lookup s.migrated x.streamID now, settles_of_eq rfl⟩
  | ctxDone hx harmed =>
    exact .of_eq rfl rfl le_rfl (settles_setPC EnforcePC.noConfusion EnforcePC.noConfusion)
  | deadline hx harmed hnow =>
    exact .of_eq rfl rfl hnow (settles_setPC EnforcePC.noConfusion fun _ => rfl)

/-! ## What a tick finds -/

variable {idleTTL pendingTTL start now noted : Time} {sid : UInt64} {m : ℕ}
  {h h₁ h₂ : List (Transition PromotionState PromotionEvent)}

/-- **The table answers like the last-write map of the run.** -/
theorem sameFrom_lastWrite (hx : (promotionMachine cfg idleTTL pendingTTL start).Exec h s) :
    migrationExpiry.SameFrom s.clock s.migrated.get (Write.lastWrite (h.filterMap migratedWrite)) :=
  Expiry.sameFrom_lastWrite (fun s => s.migrated.get) clock migratedWrite
    (fun k => GoMap.get_empty k)
    (fun hstep => ⟨(advances_of_step hstep).clock, (advances_of_step hstep).same⟩) hx

/-- A record is made at the same place of a shorter run. -/
theorem RecordedAt.of_append (hr : RecordedAt (h₁ ++ h₂) m sid noted) (hm : m < h₁.length) :
    RecordedAt h₁ m sid noted := by
  obtain ⟨⟨t, ht, hev⟩, hsince⟩ := hr
  rw [List.getElem?_append_left hm] at ht
  refine ⟨⟨t, ht, hev⟩, fun j u hj hu => hsince j u hj ?_⟩
  exact (List.getElem?_append_left (List.getElem?_eq_some_iff.mp hu).1).trans hu

/-- A `MIGRATE_TO_P2P` that is handled writes its entry. -/
theorem migratedWrite_migrateToP2P {i : ℕ} {now' : Time} {order : List (UInt64 × MigratedStream)}
    (hstep : s.step cfg (.migrateToP2P i sid noted now' order) = some s') :
    ∃ e, migratedWrite ⟨s, .migrateToP2P i sid noted now' order, s'⟩ = some (.put sid e)
      ∧ e.migratedAt = noted := by
  obtain ⟨ac, hac, -⟩ := Option.bind_eq_some_iff.mp hstep
  exact ⟨_, congrArg (Option.map _) hac, rfl⟩

/-- **A record younger than `MigrationTTL` is found.** -/
theorem RecordedAt.found (hr : RecordedAt h m sid noted)
    (hx : (promotionMachine cfg idleTTL pendingTTL start).Exec h s) (hnow : s.clock ≤ now)
    (hage : now - noted < migrationTTL) : ∃ e, (s.migrated.lookup sid now).fst = some e := by
  obtain ⟨⟨t, ht, i, now', order, hev⟩, hsince⟩ := hr
  obtain ⟨-, hstep⟩ := hx.step_of_mem (List.mem_of_getElem? ht)
  obtain ⟨pre, ev, post⟩ := t
  dsimp only at hev hstep
  subst hev
  have hhandled : pre.step cfg (.migrateToP2P i sid noted now' order) = some post := hstep
  obtain ⟨e, hput, hnoted⟩ := migratedWrite_migrateToP2P hhandled
  refine ⟨e, ?_⟩
  rw [MigratedLRU.lookup_eq_visible, sameFrom_lastWrite hx now hnow, Expiry.visible_eq_some_iff]
  refine ⟨Write.lastWrite_eq_some_iff.mpr ⟨m, ⟨_, ht, hput⟩, hsince⟩, ?_⟩
  refine MigratedStream.expired_eq_false.mpr ?_
  rw [hnoted]
  exact sub_lt_iff_lt_add'.mp hage

/-- **A tick that finds an entry is the last.** -/
theorem tick_cases (hstep : s.step cfg (.tick k now) = some s') :
    s.clock ≤ now ∧ s'.clock = now ∧ ∃ x, s.enforcements[k]? = some x
      ∧ ((∃ e, (s.migrated.lookup x.streamID now).fst = some e) →
        ∃ y, s'.enforcements[k]? = some y ∧ y.pc ≠ .armed) := by
  cases acts_of_step hstep with
  | missed hx harmed hnow hmissed =>
    refine ⟨hnow, rfl, _, hx, ?_⟩
    rintro ⟨e, he⟩
    cases hmissed.symm.trans he
  | @found _ _ x _ hx harmed hnow hfound =>
    refine ⟨hnow, rfl, x, hx, fun _ => ⟨{ x with pc := .promoted }, ?_, EnforcePC.noConfusion⟩⟩
    show (s.enforcements.modify k (fun x => { x with pc := .promoted }))[k]? = _
    rw [List.getElem?_modify, hx]
    simp

/-- **After a tick that came after the record the enforcement has returned.** -/
theorem RecordedAt.returned {j : ℕ} (hr : RecordedAt h m x.streamID noted)
    (hx : (promotionMachine cfg idleTTL pendingTTL start).Exec h s)
    (hk : s.enforcements[k]? = some x) (hage : s.clock - noted < migrationTTL) (hmj : m < j)
    (htick : At h j (fun u => ∃ now', u.ev = .tick k now')) : x.pc ≠ .armed := by
  obtain ⟨u, hu, now', hev⟩ := htick
  obtain ⟨h₁, h₂, hsplit, hlen, hx₁, hstep⟩ := hx.of_getElem? hu
  rw [hev] at hstep
  have hticked : u.pre.step cfg (.tick k now') = some u.post := hstep
  obtain ⟨hnow, hclock, y, hy, hfinds⟩ := tick_cases hticked
  -- the stream of the enforcement was the same at the tick
  have hsid : ∃ z, s.enforcements[k]? = some z ∧ z.streamID = y.streamID := by
    refine hx.keeps_from (Q := fun s => ∃ z, s.enforcements[k]? = some z
      ∧ z.streamID = y.streamID) hu ?_ fun ⟨z, hz, hzy⟩ hs => ?_
    · obtain ⟨pc, hpc, -⟩ := (advances_of_step hticked).settles k y hy
      exact ⟨_, hpc, rfl⟩
    · obtain ⟨pc, hpc, -⟩ := (advances_of_step hs).settles k z hz
      exact ⟨_, hpc, hzy⟩
  obtain ⟨z, hz, hzy⟩ := hsid
  cases hk.symm.trans hz
  have hle : now' ≤ s.clock :=
    hx.keeps_from (Q := fun s => now' ≤ s.clock) hu hclock.ge
      fun hle hs => hle.trans (advances_of_step hs).clock
  have hr₁ : RecordedAt h₁ m y.streamID noted := by
    rw [hsplit, hzy] at hr
    exact hr.of_append (hlen ▸ hmj)
  have hage' : now' - noted < migrationTTL := (sub_le_sub_right hle _).trans_lt hage
  have hret : ∃ z, s.enforcements[k]? = some z ∧ z.pc ≠ .armed := by
    refine hx.keeps_from (Q := fun s => ∃ z, s.enforcements[k]? = some z ∧ z.pc ≠ .armed) hu
      (hfinds (hr₁.found hx₁ hnow hage')) fun ⟨z, hz, hne⟩ hs => ?_
    obtain ⟨pc, hpc, hkeep, -⟩ := (advances_of_step hs).settles k z hz
    exact ⟨_, hpc, hkeep hne⟩
  obtain ⟨z', hz', hne⟩ := hret
  cases hk.symm.trans hz'
  exact hne

/-- What a deadline does, whatever the table says. -/
theorem deadline_cases (hstep : s.step cfg (.deadline k now) = some s') :
    s.clock ≤ now ∧ s'.clock = now ∧ ∃ x, s.enforcements[k]? = some x ∧ x.pc = .armed
      ∧ s'.enforcements[k]? = some { x with pc := .timedOut } := by
  cases acts_of_step hstep with
  | deadline hx harmed hnow =>
    refine ⟨hnow, rfl, _, hx, harmed, ?_⟩
    show (s.enforcements.modify k (fun x => { x with pc := .timedOut }))[k]? = _
    rw [List.getElem?_modify, hx]
    simp

end PromotionState

/-- **When a timely promotion is kept.** In every run, an enforcement closes only
streams without a record exactly when, at every deadline it handles, the records
for its stream were made before one of its ticks. -/
theorem closesUnpromoted_iff {cfg : PromotionConfig} {idleTTL pendingTTL start : Time}
    {h : List (Transition PromotionState PromotionEvent)} {s : PromotionState}
    (hx : (promotionMachine cfg idleTTL pendingTTL start).Exec h s) :
    PromotionState.ClosesUnpromoted h ↔ PromotionState.TickBeforeDeadline h := by
  constructor
  · intro hcloses n t k now x hn hev hk m noted hr hage
    obtain ⟨-, hstep⟩ := hx.step_of_mem (List.mem_of_getElem? hn)
    rw [hev] at hstep
    obtain ⟨-, hclock, y, hy, harmed, hpost⟩ := PromotionState.deadline_cases hstep
    cases hk.symm.trans hy
    have hexp := hcloses n t k x _ hn hk harmed hpost rfl m noted hr
    rw [hclock] at hexp
    exact absurd hage hexp.not_gt
  · intro hticks n t k x x' hn hk harmed hk' hpc m noted hr
    obtain ⟨h₁, h₂, hsplit, hlen, hx₁, hstep⟩ := hx.of_getElem? hn
    obtain ⟨pc, hpost, -, hdeadline⟩ :=
      (PromotionState.advances_of_step hstep).settles k x hk
    cases hk'.symm.trans hpost
    have hev := hdeadline harmed hpc
    rw [hev] at hstep
    obtain ⟨hnow, -⟩ := PromotionState.deadline_cases hstep
    by_contra hage
    obtain ⟨j, hmj, htick⟩ := hticks n t k _ x hn hev hk m noted hr (not_le.mp hage)
    have htake : h.take n = h₁ := by
      rw [hsplit, ← hlen, List.take_left']
      rfl
    rw [htake] at hr htick
    refine hr.returned hx₁ hk ?_ hmj htick harmed
    exact (sub_le_sub_right hnow _).trans_lt (not_le.mp hage)

/-- The ticks of enforcement `k`, which was armed at `1`, up to 9.75 s. -/
def ticksBefore (k : ℕ) : List PromotionEvent :=
  (List.range 39).map fun n => .tick k (1 + 250000000 * (n + 1))

/-- The consumer of a `REQUIRED` stream promotes it at 9.85 s, a tenth of a second after the
last tick before the deadline, which is handled at 10 s: the stream is closed. -/
theorem promoted_stream_closed :
    ∃ (h : List (Transition PromotionState PromotionEvent)) (s : PromotionState),
      (promotionMachine promotionR1 100 30 0).Exec h s
        ∧ h.map Transition.ev = bothConnect ++ .openStream 0 7 agentP .required .allowed 1
          :: ticksBefore 0 ++ [.migrateToP2P 0 7 9850000001 9850000001
            [(7, ⟨agentC.val, agentP.val, 9850000001⟩)], .deadline 0 10000000001]
        ∧ s.enforcements = [⟨7, .timedOut, 1, agentC, agentP, 0⟩]
        ∧ (s.migrated.lookup 7 10000000001).fst = some ⟨agentC.val, agentP.val, 9850000001⟩
        ∧ ¬ PromotionState.ClosesUnpromoted h := by
  obtain ⟨s₁, s₂, s₃, hrun, h₂, h₃, henf₂, henf₃, hclock, hfound⟩ : ∃ s₁ s₂ s₃,
      (promotionMachine promotionR1 100 30 0).run
        (bothConnect ++ .openStream 0 7 agentP .required .allowed 1 :: ticksBefore 0)
        (promotionMachine promotionR1 100 30 0).init = some s₁
      ∧ (promotionMachine promotionR1 100 30 0).step s₁
        (.migrateToP2P 0 7 9850000001 9850000001
          [(7, ⟨agentC.val, agentP.val, 9850000001⟩)]) = some s₂
      ∧ (promotionMachine promotionR1 100 30 0).step s₂ (.deadline 0 10000000001) = some s₃
      ∧ s₂.enforcements = [⟨7, .armed, 1, agentC, agentP, 0⟩]
      ∧ s₃.enforcements = [⟨7, .timedOut, 1, agentC, agentP, 0⟩]
      ∧ s₃.clock = 10000000001
      ∧ (s₃.migrated.lookup 7 10000000001).fst = some ⟨agentC.val, agentP.val, 9850000001⟩ :=
    ⟨_, _, _, rfl, rfl, rfl, rfl, rfl, rfl, rfl⟩
  obtain ⟨h₁, hx₁, hev⟩ := Machine.exec_of_run _ _ hrun
  have hx := (hx₁.snoc h₂).snoc h₃
  refine ⟨_, _, hx, ?_, henf₃, hfound, fun hcloses => ?_⟩
  · rw [List.map_append, List.map_append, hev]
    rfl
  · have harmed : s₂.enforcements[0]? = some ⟨7, .armed, 1, agentC, agentP, 0⟩ := by
      rw [henf₂]
      rfl
    have hclosed : s₃.enforcements[0]? = some ⟨7, .timedOut, 1, agentC, agentP, 0⟩ := by
      rw [henf₃]
      rfl
    have hexp := hcloses _ _ 0 _ _ List.getElem?_concat_length harmed rfl hclosed rfl
      h₁.length 9850000001 ?_
    · rw [hclock] at hexp
      exact absurd hexp (by decide)
    · rw [List.take_left']
      · refine ⟨at_length ⟨0, _, _, rfl⟩, since_of_length_le (Nat.le_of_eq ?_)⟩
        rw [List.length_append]
        rfl
      · rfl

/-- Two `REQUIRED` streams are opened, and the first is promoted. The first tick of its
enforcement finds the entry, and those of the other find none. -/
def firstPromoted : List PromotionEvent :=
  bothConnect ++ [.openStream 0 7 agentP .required .allowed 1,
    .openStream 0 8 agentP .required .allowed 1,
    .migrateToP2P 1 7 2 2 [(7, ⟨agentC.val, agentP.val, 2⟩)], .tick 0 250000001] ++ ticksBefore 1

/-- The second stream is closed at its deadline, and the first is not. -/
theorem unpromoted_stream_closed :
    ∃ (h : List (Transition PromotionState PromotionEvent)) (s : PromotionState),
      (promotionMachine promotionR1 100 30 0).Exec h s
        ∧ PromotionState.ClosesUnpromoted h
        ∧ s.enforcements = [⟨7, .promoted, 1, agentC, agentP, 0⟩,
          ⟨8, .timedOut, 1, agentC, agentP, 0⟩] := by
  obtain ⟨s₁, s₂, hrun, h₂, henf₁, henf₂⟩ : ∃ s₁ s₂,
      (promotionMachine promotionR1 100 30 0).run firstPromoted
        (promotionMachine promotionR1 100 30 0).init = some s₁
      ∧ (promotionMachine promotionR1 100 30 0).step s₁ (.deadline 1 10000000001) = some s₂
      ∧ s₁.enforcements = [⟨7, .promoted, 1, agentC, agentP, 0⟩, ⟨8, .armed, 1, agentC, agentP, 0⟩]
      ∧ s₂.enforcements = [⟨7, .promoted, 1, agentC, agentP, 0⟩,
        ⟨8, .timedOut, 1, agentC, agentP, 0⟩] := ⟨_, _, rfl, rfl, rfl, rfl⟩
  obtain ⟨h₁, hx₁, hev⟩ := Machine.exec_of_run _ _ hrun
  have hmem : ∀ {t}, t ∈ h₁ → t.ev ∈ firstPromoted := fun ht => hev ▸ List.mem_map_of_mem ht
  have hx := hx₁.snoc h₂
  refine ⟨_, _, hx, (closesUnpromoted_iff hx).mpr ?_, henf₂⟩
  intro n t k now x hn hdl hk m noted hr _
  rcases of_getElem?_concat hn with hn | ⟨rfl, rfl⟩
  · have hin := hmem (List.mem_of_getElem? hn)
    rw [hdl] at hin
    simp [firstPromoted, bothConnect, ticksBefore] at hin
  · -- nobody has promoted the stream of the second enforcement
    cases hdl
    rw [henf₁] at hk
    cases hk
    rw [List.take_left' rfl] at hr
    obtain ⟨⟨u, hu, i, now', order, hev'⟩, -⟩ := hr
    have hin := hmem (List.mem_of_getElem? hu)
    rw [hev'] at hin
    simp [firstPromoted, bothConnect, ticksBefore] at hin
