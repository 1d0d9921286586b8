import Mathlib.Data.Int.ConditionallyCompleteOrder
import Mathlib.Data.Set.Card
import OutRelay.LastWrite
import OutRelay.Promotion

/-!
# The table of migrated streams is a map with a TTL

What `migratedLRU` is for can be said without its sweeps: it remembers, per
stream id, the last `Note` or `Discard`, and a `Note` counts for
`MigrationTTL`. The code forgets expired entries at three places – `Note`
sweeps the whole table after it has entered its own row, `Len` sweeps before it
counts, and `Lookup` deletes the row it finds expired – and each reads the
clock for itself, `Note` twice.

The machine below takes the four calls in any order, under a clock that does
not run backwards; the mutex makes each of them one step. From the time of the
last call on, the table answers like the last-write map of the `Note` and
`Discard` calls so far (`sameFrom_lastWrite`). No other call, no sweep and no
order of a sweep has a part in that map.
-/

/-- The entries expire after `MigrationTTL`, and stay expired. -/
def migrationExpiry : Expiry MigratedStream Time where
  dead := MigratedStream.expired
  mono := by
    intro e t t' hle hdead
    unfold MigratedStream.expired at hdead ⊢
    rw [decide_eq_true_iff] at hdead ⊢
    exact hdead.trans (sub_le_sub_right hle _)

namespace MigratedLRU

/-- `Len`, which sweeps and counts what is left. -/
def len (l : MigratedLRU) (now : Time) (order : List (UInt64 × MigratedStream)) :
    ℕ × MigratedLRU :=
  (GoMap.len (gcLocked l now order), gcLocked l now order)

variable {l : MigratedLRU} {id : UInt64} {now now' : Time} {pair : StreamPair}
  {order : List (UInt64 × MigratedStream)}

/-! ## The calls, as readers see them -/

/-- `Lookup` answers with what is visible. -/
theorem lookup_eq_visible (l : MigratedLRU) (id : UInt64) (now : Time) :
    (lookup l id now).fst = migrationExpiry.visible l.get now id := by
  ext e
  rw [lookup_fst, Expiry.visible_eq_some_iff]
  rfl

/-- The row that `Lookup` deletes has expired. -/
theorem sameFrom_lookup (l : MigratedLRU) (id : UInt64) (now : Time) :
    migrationExpiry.SameFrom now (lookup l id now).snd.get l.get := by
  refine Expiry.sameFrom_of_dropped fun k => ?_
  unfold lookup
  cases hget : l.get id with
  | none => exact Or.inl rfl
  | some e =>
    dsimp only
    split_ifs with hexp
    · by_cases hk : k = id
      · subst hk
        refine Or.inr ⟨GoMap.get_del_self l k, fun v hv => ?_⟩
        cases hget.symm.trans hv
        exact hexp
      · exact Or.inl (GoMap.get_del_of_ne l hk)
    · exact Or.inl rfl

/-- The rows that a sweep deletes have expired. -/
theorem sameFrom_gcLocked (ho : l.RangeOrder order) :
    migrationExpiry.SameFrom now (gcLocked l now order).get l.get := by
  refine Expiry.sameFrom_of_dropped fun k => ?_
  unfold gcLocked
  rw [ho.get_delAll_filter (fun v => v.expired now)]
  cases hget : l.get k with
  | none => exact Or.inl rfl
  | some e =>
    cases hexp : e.expired now with
    | false => exact Or.inl (by simp [Option.filter, hexp])
    | true =>
      refine Or.inr ⟨by simp [Option.filter, hexp], fun v hv => ?_⟩
      cases hv
      exact hexp

theorem get_set_eq_apply (l : MigratedLRU) (id : UInt64) (e : MigratedStream) :
    (GoMap.set l id e).get = (Write.put id e).apply l.get := by
  funext k
  rw [GoMap.get_set]
  exact (Function.update_apply l.get id (some e) k).symm

theorem get_discard_eq_apply (l : MigratedLRU) (id : UInt64) :
    (discard l id).get = (Write.erase id).apply l.get := by
  funext k
  unfold discard
  rw [GoMap.get_del]
  exact (Function.update_apply l.get id none k).symm

/-- A `Note` is a write, and a sweep at its second reading of the clock. -/
theorem sameFrom_note
    (ho : (l.set id ⟨pair.consumerURI, pair.providerURI, now⟩).RangeOrder order) :
    migrationExpiry.SameFrom now' (note l id pair now now' order).get
      ((Write.put id ⟨pair.consumerURI, pair.providerURI, now⟩).apply l.get) := by
  rw [← get_set_eq_apply]
  exact sameFrom_gcLocked ho

end MigratedLRU

/-! ## Runs of the table -/

/-- The table, and the latest reading of the clock. -/
structure MigratedState where
  table : MigratedLRU
  clock : Time

/-- A call of one of the four methods, with the clock readings it makes and the
order in which it sweeps. -/
inductive MigratedCall
  | note (id : UInt64) (pair : StreamPair) (now now' : Time)
      (order : List (UInt64 × MigratedStream))
  | lookup (id : UInt64) (now : Time)
  | discard (id : UInt64)
  | len (now : Time) (order : List (UInt64 × MigratedStream))

/-- What the call writes. -/
def MigratedCall.write : MigratedCall → Option (Write UInt64 MigratedStream)
  | .note id pair now _ _ => some (.put id ⟨pair.consumerURI, pair.providerURI, now⟩)
  | .discard id => some (.erase id)
  | .lookup _ _ | .len _ _ => none

/-- The call is a `Note` or a `Discard` on the id. -/
def MigratedCall.Writes (id : UInt64) : MigratedCall → Prop
  | .note k _ _ _ _ | .discard k => k = id
  | .lookup _ _ | .len _ _ => False

/-- A call, under a clock that does not run backwards. -/
def MigratedState.step (s : MigratedState) : MigratedCall → Option MigratedState
  | .note id pair now now' order =>
    if s.clock ≤ now ∧ now ≤ now'
        ∧ (s.table.set id ⟨pair.consumerURI, pair.providerURI, now⟩).RangeOrder order then
      some ⟨s.table.note id pair now now' order, now'⟩
    else none
  | .lookup id now =>
    if s.clock ≤ now then some ⟨(s.table.lookup id now).snd, now⟩ else none
  | .discard id => some { s with table := s.table.discard id }
  | .len now order =>
    if s.clock ≤ now ∧ s.table.RangeOrder order then some ⟨(s.table.len now order).snd, now⟩
    else none

/-- `newMigratedLRU`, and the calls on it. -/
def migratedMachine (start : Time) : Machine MigratedState MigratedCall where
  init := ⟨∅, start⟩
  step := MigratedState.step

namespace MigratedState

variable {s s' : MigratedState} {c : MigratedCall} {start : Time}
  {h : List (Transition MigratedState MigratedCall)}

/-- **A step is its write, for every reader from then on.** -/
theorem sameFrom_step (hstep : s.step c = some s') :
    s.clock ≤ s'.clock
      ∧ migrationExpiry.SameFrom s'.clock s'.table.get (Write.after c.write s.table.get) := by
  cases c with
  | note id pair now now' order =>
    obtain ⟨⟨hnow, hnow', ho⟩, hs'⟩ := Option.ite_none_right_eq_some.mp hstep
    cases hs'
    exact ⟨hnow.trans hnow', MigratedLRU.sameFrom_note ho⟩
  | lookup id now =>
    obtain ⟨hnow, hs'⟩ := Option.ite_none_right_eq_some.mp hstep
    cases hs'
    exact ⟨hnow, MigratedLRU.sameFrom_lookup s.table id now⟩
  | discard id =>
    cases hstep
    refine ⟨le_rfl, ?_⟩
    show migrationExpiry.SameFrom _ (MigratedLRU.discard s.table id).get _
    rw [MigratedLRU.get_discard_eq_apply]
    exact Expiry.SameFrom.refl _ _
  | len now order =>
    obtain ⟨⟨hnow, ho⟩, hs'⟩ := Option.ite_none_right_eq_some.mp hstep
    cases hs'
    exact ⟨hnow, MigratedLRU.sameFrom_gcLocked ho⟩

/-- The writes of a run. -/
def writes (h : List (Transition MigratedState MigratedCall)) :
    List (Write UInt64 MigratedStream) := h.filterMap (fun t => t.ev.write)

/-- **The table answers like the last-write map of the run.** -/
theorem sameFrom_lastWrite (hx : (migratedMachine start).Exec h s) :
    migrationExpiry.SameFrom s.clock s.table.get (Write.lastWrite (writes h)) :=
  Expiry.sameFrom_lastWrite (fun s => s.table.get) clock (fun t => t.ev.write)
    (fun k => GoMap.get_empty k) sameFrom_step hx

/-! ## What a reader finds -/

/-- **The latest `Note` or `Discard` on the id** was a `Note` of the pair, at
time `t`. -/
def LatestNote (h : List (Transition MigratedState MigratedCall)) (id : UInt64)
    (pair : StreamPair) (t : Time) : Prop :=
  ∃ n, At h n (fun u => ∃ now' order, u.ev = .note id pair t now' order)
    ∧ Since h (n + 1) (fun u => ¬ u.ev.Writes id)

theorem write_eq_put_iff {c : MigratedCall} {id : UInt64} {pair : StreamPair} {t : Time} :
    c.write = some (.put id ⟨pair.consumerURI, pair.providerURI, t⟩)
      ↔ ∃ now' order, c = .note id pair t now' order := by
  constructor
  · intro h
    cases c with
    | note k p now now' order =>
      obtain ⟨consumerURI, providerURI⟩ := pair
      obtain ⟨consumerURI', providerURI'⟩ := p
      cases h
      exact ⟨now', order, rfl⟩
    | lookup k now => cases h
    | discard k => cases h
    | len now order => cases h
  · rintro ⟨now', order, rfl⟩
    rfl

theorem spares_eq (id : UInt64) :
    Write.Spares (fun t : Transition MigratedState MigratedCall => t.ev.write) id
      = fun u => ¬ u.ev.Writes id := by
  ext ⟨pre, c, post⟩
  show (∀ w, c.write = some w → w.key ≠ id) ↔ ¬ c.Writes id
  cases c <;> simp [MigratedCall.write, MigratedCall.Writes, Write.key]

/-- The last write on an id is a `Note` exactly when its latest `Note` or
`Discard` is. -/
theorem lastWrite_eq_some_iff {id : UInt64} {pair : StreamPair} {t : Time} :
    Write.lastWrite (writes h) id = some ⟨pair.consumerURI, pair.providerURI, t⟩
      ↔ LatestNote h id pair t := by
  unfold writes LatestNote
  rw [Write.lastWrite_eq_some_iff, spares_eq]
  simp only [write_eq_put_iff]

/-- **What a reader finds**: the record of the latest `Note` that no `Discard`
has followed, while it is younger than `MigrationTTL`. -/
theorem lookup_eq_some_iff (hx : (migratedMachine start).Exec h s) {id : UInt64} {now : Time}
    (hnow : s.clock ≤ now) {pair : StreamPair} {t : Time} :
    (s.table.lookup id now).fst = some ⟨pair.consumerURI, pair.providerURI, t⟩
      ↔ LatestNote h id pair t ∧ now - t < migrationTTL := by
  rw [MigratedLRU.lookup_eq_visible, sameFrom_lastWrite hx now hnow id,
    Expiry.visible_eq_some_iff, lastWrite_eq_some_iff]
  refine and_congr_right fun _ => ?_
  show MigratedStream.expired _ now = false ↔ _
  rw [MigratedStream.expired_eq_false, sub_lt_iff_lt_add']

end MigratedState

/-- The number of rows is the number of keys. -/
theorem GoMap.len_eq_ncard {κ ν : Type} [DecidableEq κ] (m : GoMap κ ν) :
    m.len = {k | ∃ v, m.get k = some v}.ncard := by
  obtain ⟨l, hl⟩ := m.exists_rangeOrder
  have hkeys : {k | ∃ v, m.get k = some v} = ((l.map Prod.fst).toFinset : Set κ) := by
    ext k
    simp [← hl.mem_iff]
  rw [hkeys, Set.ncard_coe_finset, List.toFinset_card_of_nodup hl.nodup, List.length_map,
    hl.length_eq]

namespace MigratedState

variable {s s' : MigratedState} {start : Time}
  {h h' : List (Transition MigratedState MigratedCall)}

/-- What is left after a sweep is what a reader would find. -/
theorem len_eq_ncard {now : Time} {order : List (UInt64 × MigratedStream)}
    (ho : s.table.RangeOrder order) :
    (s.table.len now order).fst = {id | ∃ e, (s.table.lookup id now).fst = some e}.ncard := by
  show GoMap.len (s.table.gcLocked now order) = _
  rw [GoMap.len_eq_ncard]
  congr 1
  ext id
  simp only [Set.mem_ofPred_eq, MigratedLRU.lookup_fst]
  unfold MigratedLRU.gcLocked
  rw [ho.get_delAll_filter (fun v => v.expired now)]
  simp only [Option.filter_eq_some_iff, Bool.not_eq_true']

end MigratedState

/-- **`migratedLRU` is a last-write-wins map with a TTL.** After any calls, under
a clock that does not run backwards, `Lookup` at a later time answers with the
pair of the latest `Note` on the id if no `Discard` has followed it and it is
younger than `MigrationTTL`, and with nothing otherwise; `Len` counts the ids of
such `Note`s; and two runs with the same `Note` and `Discard` calls answer the
same, whatever else they call and however they sweep. -/
theorem migratedLRU_refines_ttl_map {start : Time} {s : MigratedState}
    {h : List (Transition MigratedState MigratedCall)}
    (hx : (migratedMachine start).Exec h s) :
    (∀ id now, s.clock ≤ now → ∀ e, (s.table.lookup id now).fst = some e
      ↔ ∃ pair t, MigratedState.LatestNote h id pair t ∧ now - t < migrationTTL
        ∧ e = ⟨pair.consumerURI, pair.providerURI, t⟩)
    ∧ (∀ now order, s.clock ≤ now → s.table.RangeOrder order →
      (s.table.len now order).fst
        = {id | ∃ pair t, MigratedState.LatestNote h id pair t
            ∧ now - t < migrationTTL}.ncard)
    ∧ ∀ start' s' h', (migratedMachine start').Exec h' s' →
      MigratedState.writes h' = MigratedState.writes h →
      ∀ now, s.clock ≤ now → s'.clock ≤ now →
        (∀ id, (s'.table.lookup id now).fst = (s.table.lookup id now).fst)
        ∧ ∀ order order', s.table.RangeOrder order → s'.table.RangeOrder order' →
          (s'.table.len now order').fst = (s.table.len now order).fst := by
  have hlookup : ∀ id now, s.clock ≤ now → ∀ e, (s.table.lookup id now).fst = some e
      ↔ ∃ pair t, MigratedState.LatestNote h id pair t ∧ now - t < migrationTTL
        ∧ e = ⟨pair.consumerURI, pair.providerURI, t⟩ := by
    intro id now hnow e
    constructor
    · obtain ⟨consumer, provider, t⟩ := e
      intro he
      let pair : StreamPair := ⟨consumer, provider⟩
      have hpair : (s.table.lookup id now).fst = some ⟨pair.consumerURI, pair.providerURI, t⟩ := he
      obtain ⟨hlatest, hage⟩ := (MigratedState.lookup_eq_some_iff hx hnow).mp hpair
      exact ⟨_, _, hlatest, hage, rfl⟩
    · rintro ⟨pair, t, hlatest, hage, rfl⟩
      exact (MigratedState.lookup_eq_some_iff hx hnow).mpr ⟨hlatest, hage⟩
  refine ⟨hlookup, fun now order hnow ho => ?_, fun start' s' h' hx' hw now hnow hnow' => ?_⟩
  · rw [MigratedState.len_eq_ncard ho]
    congr 1
    ext id
    simp only [Set.mem_ofPred_eq, hlookup id now hnow]
    constructor
    · rintro ⟨e, pair, t, hlatest, hage, -⟩
      exact ⟨pair, t, hlatest, hage⟩
    · rintro ⟨pair, t, hlatest, hage⟩
      exact ⟨_, pair, t, hlatest, hage, rfl⟩
  · have hsame : ∀ id, (s'.table.lookup id now).fst = (s.table.lookup id now).fst := by
      intro id
      rw [MigratedLRU.lookup_eq_visible, MigratedLRU.lookup_eq_visible,
        MigratedState.sameFrom_lastWrite hx now hnow id,
        MigratedState.sameFrom_lastWrite hx' now hnow' id, hw]
    refine ⟨hsame, fun order order' ho ho' => ?_⟩
    rw [MigratedState.len_eq_ncard ho, MigratedState.len_eq_ncard ho']
    simp only [hsame]

/-- A stream between `agentC` and `agentP`. -/
def pairCP : StreamPair := ⟨agentC.val, agentP.val⟩

/-- A stream is noted, noted again a minute later, and another one is noted and
discarded. -/
def renoted : List MigratedCall :=
  [.note 7 pairCP 1 1 [(7, ⟨agentC.val, agentP.val, 1⟩)],
    .note 7 pairCP 60000000001 60000000001 [(7, ⟨agentC.val, agentP.val, 60000000001⟩)],
    .note 8 pairCP 60000000002 60000000003
      [(8, ⟨agentC.val, agentP.val, 60000000002⟩), (7, ⟨agentC.val, agentP.val, 60000000001⟩)],
    .discard 8]

/-- The stream is found for another TTL, the discarded one is not, and `Len`
counts one. -/
theorem renoted_stream_found :
    ∃ (h : List (Transition MigratedState MigratedCall)) (s : MigratedState),
      (migratedMachine 0).Exec h s ∧ h.map Transition.ev = renoted
        ∧ (∃ pair t, MigratedState.LatestNote h 7 pair t
          ∧ (120000000000 : Time) - t < migrationTTL
          ∧ (⟨agentC.val, agentP.val, 60000000001⟩ : MigratedStream)
            = ⟨pair.consumerURI, pair.providerURI, t⟩)
        ∧ (¬ ∃ pair t, MigratedState.LatestNote h 8 pair t
          ∧ (120000000000 : Time) - t < migrationTTL)
        ∧ {id | ∃ pair t, MigratedState.LatestNote h id pair t
          ∧ (120000000000 : Time) - t < migrationTTL}.ncard = 1 := by
  obtain ⟨s, hrun, hclock, h7, h8, ho, hlen⟩ : ∃ s, (migratedMachine 0).run renoted
        (migratedMachine 0).init = some s
      ∧ s.clock ≤ 120000000000
      ∧ (s.table.lookup 7 120000000000).fst = some ⟨agentC.val, agentP.val, 60000000001⟩
      ∧ (s.table.lookup 8 120000000000).fst = none
      ∧ s.table.RangeOrder [(7, ⟨agentC.val, agentP.val, 60000000001⟩)]
      ∧ (s.table.len 120000000000 [(7, ⟨agentC.val, agentP.val, 60000000001⟩)]).fst = 1 :=
    ⟨_, rfl, by decide, rfl, rfl, by decide, rfl⟩
  obtain ⟨h, hx, hev⟩ := Machine.exec_of_run _ _ hrun
  obtain ⟨hlookup, hcount, -⟩ := migratedLRU_refines_ttl_map hx
  refine ⟨h, s, hx, hev, (hlookup 7 _ hclock _).mp h7, ?_, ?_⟩
  · rintro ⟨pair, t, hlatest, hage⟩
    have hfound := (hlookup 8 _ hclock _).mpr ⟨pair, t, hlatest, hage, rfl⟩
    rw [h8] at hfound
    cases hfound
  · rw [← hcount _ _ hclock ho, hlen]
