import Mathlib.Data.List.Basic
import Mathlib.Data.List.Count

/-!
# Runs of a machine

A concurrent program whose goroutines meet only inside critical sections is
a machine that takes one atomic step at a time: `step s e` is the state
after the event `e`, and `none` where `e` cannot happen in `s`. An
interleaving is then a sequence of events, and a statement over all
interleavings is one over all runs.

`Exec h s` says that `h` is a run from the initial state ending in `s`. The
run keeps, per step, the state before, the event and the state after
(`Transition`), so that a property of a run can speak of what an event found
and of what it left. Positions in `h` are stable: extending a run appends.

Every induction over runs goes through the two rules proved here.
`Exec.invariant` is the plain one: an invariant that holds initially and
survives each step holds at the end of every run. `Exec.invariant_of_guard`
is the same for the runs all of whose steps meet a condition `G` on the
state before the step and the event – the form a partial correctness
statement takes when some schedules are bad.

A statement about the history of a state names positions in the run: `At`
says what happened at one, `Since` what has held from one on.
-/

/-- One step of a run: the state before, the event, the state after. -/
structure Transition (σ ε : Type) where
  pre : σ
  ev : ε
  post : σ

/-- **A machine**: an initial state and a partial step function. -/
structure Machine (σ ε : Type) where
  init : σ
  step : σ → ε → Option σ

namespace Machine

variable {σ ε : Type}

/-- **The runs of a machine**, oldest step first, with their last state. -/
inductive Exec (M : Machine σ ε) : List (Transition σ ε) → σ → Prop
  | nil : M.Exec [] M.init
  | snoc {h : List (Transition σ ε)} {s s' : σ} {e : ε} :
      M.Exec h s → M.step s e = some s' → M.Exec (h ++ [⟨s, e, s'⟩]) s'

/-- A state is reachable when some run ends in it. -/
def Reachable (M : Machine σ ε) (s : σ) : Prop := ∃ h, M.Exec h s

/-- Fold a list of events, oldest first. -/
def run (M : Machine σ ε) : List ε → σ → Option σ
  | [], s => some s
  | e :: es, s => (M.step s e).bind (M.run es)

variable {M : Machine σ ε} {h : List (Transition σ ε)} {s s' : σ} {e : ε}

theorem Reachable.init : M.Reachable M.init := ⟨[], Exec.nil⟩

theorem Reachable.step (hs : M.Reachable s) (he : M.step s e = some s') :
    M.Reachable s' :=
  hs.elim (fun _ hx => ⟨_, hx.snoc he⟩)

/-- Events that run from the last state of a run extend it. -/
theorem Exec.append_run {es : List ε} (hx : M.Exec h s) (he : M.run es s = some s') :
    ∃ h', M.Exec (h ++ h') s' ∧ h'.map Transition.ev = es := by
  induction es generalizing h s with
  | nil =>
    cases he
    exact ⟨[], by rwa [List.append_nil], rfl⟩
  | cons e es ih =>
    obtain ⟨s₁, h₁, h₂⟩ := Option.bind_eq_some_iff.mp he
    obtain ⟨h', hx', hev⟩ := ih (hx.snoc h₁) h₂
    exact ⟨⟨s, e, s₁⟩ :: h', by simpa using hx', by simp [hev]⟩

/-- Events that run from the initial state make a run. -/
theorem exec_of_run (M : Machine σ ε) (es : List ε) (he : M.run es M.init = some s) :
    ∃ h, M.Exec h s ∧ h.map Transition.ev = es :=
  Exec.nil.append_run he

/-- **The invariant rule.** -/
theorem Exec.invariant {I : σ → Prop} (hinit : I M.init)
    (hstep : ∀ {s e s'}, M.Reachable s → I s → M.step s e = some s' → I s')
    (hx : M.Exec h s) : I s := by
  induction hx with
  | nil => exact hinit
  | snoc hx he ih => exact hstep ⟨_, hx⟩ ih he

/-- The invariant rule, over reachable states. -/
theorem Reachable.invariant {I : σ → Prop} (hinit : I M.init)
    (hstep : ∀ {s e s'}, M.Reachable s → I s → M.step s e = some s' → I s')
    (hs : M.Reachable s) : I s :=
  hs.elim (fun _ hx => hx.invariant hinit hstep)

/-! ## What holds along a run -/

/-- Every step of a run is a step of the machine, taken from a reachable
state. -/
theorem Exec.step_of_mem (hx : M.Exec h s) {t : Transition σ ε} (ht : t ∈ h) :
    M.Reachable t.pre ∧ M.step t.pre t.ev = some t.post := by
  induction hx with
  | nil => cases ht
  | snoc hx he ih =>
    rcases List.mem_append.mp ht with ht | ht
    · exact ih ht
    · cases List.mem_singleton.mp ht
      exact ⟨⟨_, hx⟩, he⟩

/-- A run up to one of its steps is a run. -/
theorem Exec.of_append {h₁ h₂ : List (Transition σ ε)} {t : Transition σ ε}
    (hx : M.Exec (h₁ ++ t :: h₂) s) :
    M.Exec h₁ t.pre ∧ M.step t.pre t.ev = some t.post := by
  generalize hh : h₁ ++ t :: h₂ = h at hx
  induction hx generalizing h₂ with
  | nil => simp at hh
  | @snoc h s s' e hx he ih =>
    rcases List.eq_nil_or_concat h₂ with rfl | ⟨h₃, u, rfl⟩
    · obtain ⟨rfl, hu⟩ := List.append_inj' hh rfl
      cases hu
      exact ⟨hx, he⟩
    · rw [List.concat_eq_append, ← List.cons_append, ← List.append_assoc] at hh
      exact ih (List.append_inj' hh rfl).1

/-- A run up to its `n`-th step. -/
theorem Exec.of_getElem? {n : ℕ} {t : Transition σ ε} (hx : M.Exec h s) (ht : h[n]? = some t) :
    ∃ h₁ h₂, h = h₁ ++ h₂ ∧ h₁.length = n ∧ M.Exec h₁ t.pre
      ∧ M.step t.pre t.ev = some t.post := by
  obtain ⟨hn, rfl⟩ := List.getElem?_eq_some_iff.mp ht
  have hsplit : h = h.take n ++ h[n] :: h.drop (n + 1) := by
    rw [← List.drop_eq_getElem_cons hn, List.take_append_drop]
  have hrun : M.Exec (h.take n ++ h[n] :: h.drop (n + 1)) s := hsplit ▸ hx
  exact ⟨_, _, hsplit, List.length_take_of_le (Nat.le_of_lt hn), hrun.of_append⟩

/-- **`P` holds in every state of the run**, first and last included. -/
def Throughout (P : σ → Prop) (h : List (Transition σ ε)) (s : σ) : Prop :=
  P s ∧ ∀ t ∈ h, P t.pre

/-- The states of a longer run are those of the shorter one and its last. -/
theorem throughout_snoc {P : σ → Prop} {t : Transition σ ε} :
    Throughout P (h ++ [t]) s' ↔ P s' ∧ Throughout P h t.pre := by
  simp only [Throughout, List.mem_append, List.mem_singleton]
  constructor
  · rintro ⟨hs', hall⟩
    exact ⟨hs', hall t (Or.inr rfl), fun u hu => hall u (Or.inl hu)⟩
  · rintro ⟨hs', ht, hall⟩
    refine ⟨hs', fun u hu => ?_⟩
    rcases hu with hu | rfl
    · exact hall u hu
    · exact ht

/-- **The invariant rule for the runs whose steps meet a condition.** -/
theorem Exec.invariant_of_guard {I : σ → Prop} {G : σ → ε → Prop}
    (hinit : I M.init)
    (hstep : ∀ {s e s'}, M.Reachable s → I s → G s e → M.step s e = some s' → I s')
    (hx : M.Exec h s) (hG : ∀ t ∈ h, G t.pre t.ev) : Throughout I h s := by
  induction hx with
  | nil => exact ⟨hinit, fun _ ht => nomatch ht⟩
  | snoc hx he ih =>
    have hI := ih (fun t ht => hG t (List.mem_append_left _ ht))
    have hlast := hG _ (List.mem_append_right _ (List.mem_singleton_self _))
    exact throughout_snoc.mpr ⟨hstep ⟨_, hx⟩ hI.1 hlast he, hI⟩

/-- `P` holds throughout when it holds initially and after every step. -/
theorem Exec.throughout_iff_post {P : σ → Prop} (hx : M.Exec h s) :
    Throughout P h s ↔ P M.init ∧ ∀ t ∈ h, P t.post := by
  induction hx with
  | nil =>
    constructor
    · exact fun hP => ⟨hP.1, fun _ ht => nomatch ht⟩
    · exact fun hP => ⟨hP.1, fun _ ht => nomatch ht⟩
  | snoc hx he ih =>
    rw [throughout_snoc, ih]
    simp only [List.mem_append, List.mem_singleton, or_imp, forall_and, forall_eq]
    tauto

/-- **A condition is exact when breaking it breaks the property at once.**
Let `I` be an invariant of the runs whose steps meet `G`. If from a state with
`I` a step has `Q` when it meets `G`, and only then, the steps of a run all
have `Q` exactly when they all meet `G`. -/
theorem Exec.forall_iff {I : σ → Prop} {Q : Transition σ ε → Prop} {G : σ → ε → Prop}
    (hinit : I M.init)
    (hgood : ∀ {s e s'}, M.Reachable s → I s → G s e → M.step s e = some s' →
      I s' ∧ Q ⟨s, e, s'⟩)
    (hbad : ∀ {s e s'}, M.Reachable s → I s → ¬ G s e → M.step s e = some s' →
      ¬ Q ⟨s, e, s'⟩)
    (hx : M.Exec h s) : (∀ t ∈ h, Q t) ↔ ∀ t ∈ h, G t.pre t.ev := by
  have hI : ∀ {h s}, M.Exec h s → (∀ t ∈ h, G t.pre t.ev) → Throughout I h s := fun hx =>
    hx.invariant_of_guard hinit (fun hs hI hG he => (hgood hs hI hG he).1)
  constructor
  · intro hQ
    induction hx with
    | nil => exact fun _ ht => nomatch ht
    | @snoc h s s' e hx he ih =>
      have hG := ih (fun t ht => hQ t (List.mem_append_left _ ht))
      intro t ht
      rcases List.mem_append.mp ht with ht | ht
      · exact hG t ht
      · have hlast := hQ t (List.mem_append_right _ ht)
        cases List.mem_singleton.mp ht
        by_contra hbreak
        exact hbad ⟨_, hx⟩ (hI hx hG).1 hbreak he hlast
  · intro hG t ht
    obtain ⟨hreach, hstep⟩ := hx.step_of_mem ht
    exact (hgood hreach ((hI hx hG).2 t ht) (hG t ht) hstep).2

/-- The same for a property of states that `I` implies. -/
theorem Exec.throughout_iff {I P : σ → Prop} {G : σ → ε → Prop}
    (hinit : I M.init) (hI : ∀ {s}, I s → P s)
    (hgood : ∀ {s e s'}, M.Reachable s → I s → G s e → M.step s e = some s' → I s')
    (hbad : ∀ {s e s'}, M.Reachable s → I s → ¬ G s e → M.step s e = some s' → ¬ P s')
    (hx : M.Exec h s) : Throughout P h s ↔ ∀ t ∈ h, G t.pre t.ev := by
  rw [hx.throughout_iff_post, and_iff_right (hI hinit)]
  refine hx.forall_iff (Q := fun t => P t.post) hinit ?_ hbad
  intro s e s' hs hIs hG he
  have hIs' := hgood hs hIs hG he
  exact ⟨hIs', hI hIs'⟩

/-! ## Two runs -/

/-- `P` holds of every step of the run of `es` from `s`. -/
def Along (M : Machine σ ε) (P : σ → ε → Prop) : List ε → σ → Prop
  | [], _ => True
  | e :: es, s => P s e ∧ ∀ s', M.step s e = some s' → M.Along P es s'

/-- **The second run is the first with steps inserted**: events that `same`
relates are taken by both, and the steps of `extra` by the second alone. -/
inductive Inserted (same : ε → ε → Prop) (extra : Transition σ ε → Prop) :
    List (Transition σ ε) → List (Transition σ ε) → Prop
  | nil : Inserted same extra [] []
  | both {h h' : List (Transition σ ε)} {t t' : Transition σ ε} (hins : Inserted same extra h h')
      (hev : same t.ev t'.ev) : Inserted same extra (h ++ [t]) (h' ++ [t'])
  | extra {h h' : List (Transition σ ε)} {t' : Transition σ ε} (hins : Inserted same extra h h')
      (ht' : extra t') : Inserted same extra h (h' ++ [t'])

theorem Exec.of_nil (hx : M.Exec [] s) : s = M.init := by
  generalize hh : ([] : List (Transition σ ε)) = h at hx
  cases hx with
  | nil => rfl
  | snoc => simp at hh

/-- The last step of a run. -/
theorem Exec.of_snoc {t : Transition σ ε} (hx : M.Exec (h ++ [t]) s) :
    M.Exec h t.pre ∧ M.step t.pre t.ev = some t.post ∧ s = t.post := by
  generalize hh : h ++ [t] = h' at hx
  cases hx with
  | nil => simp at hh
  | snoc hx he =>
    obtain ⟨rfl, ht⟩ := List.append_inj' hh rfl
    cases ht
    exact ⟨hx, he, rfl⟩

/-- **The rule for a run with steps inserted.** A relation between the states of
the two runs that holds initially, survives a step of both and survives one that
only the second takes holds at their ends. -/
theorem Inserted.relates {same : ε → ε → Prop} {extra : Transition σ ε → Prop}
    {R : σ → σ → Prop} {h h' : List (Transition σ ε)} {s s' : σ} (hinit : R M.init M.init)
    (hboth : ∀ {t t' : Transition σ ε}, t ∈ h → R t.pre t'.pre → same t.ev t'.ev →
      M.step t.pre t.ev = some t.post → M.step t'.pre t'.ev = some t'.post → R t.post t'.post)
    (hextra : ∀ {s : σ} {t' : Transition σ ε}, R s t'.pre → extra t' →
      M.step t'.pre t'.ev = some t'.post → R s t'.post)
    (hins : Inserted same extra h h') (hx : M.Exec h s) (hx' : M.Exec h' s') : R s s' := by
  induction hins generalizing s s' with
  | nil =>
    rw [hx.of_nil, hx'.of_nil]
    exact hinit
  | both hins hev ih =>
    obtain ⟨hpre, hstep, rfl⟩ := hx.of_snoc
    obtain ⟨hpre', hstep', rfl⟩ := hx'.of_snoc
    have hR := ih (fun ht => hboth (List.mem_append_left _ ht)) hpre hpre'
    exact hboth (List.mem_append_right _ (List.mem_singleton_self _)) hR hev hstep hstep'
  | extra hins ht' ih =>
    obtain ⟨hpre', hstep', rfl⟩ := hx'.of_snoc
    exact hextra (ih hboth hx hpre') ht' hstep'

end Machine

/-! ## Positions in a run -/

section Positions

variable {α : Type} {P : α → Prop} {h : List α} {k : ℕ} {t : α}

/-- `P` holds of the entry at position `k`. -/
def At (h : List α) (k : ℕ) (P : α → Prop) : Prop := ∃ t, h[k]? = some t ∧ P t

/-- `P` holds of every entry from position `k` on. -/
def Since (h : List α) (k : ℕ) (P : α → Prop) : Prop :=
  ∀ j t, k ≤ j → h[j]? = some t → P t

theorem At.lt (ha : At h k P) : k < h.length := by
  obtain ⟨t, ht, -⟩ := ha
  exact (List.getElem?_eq_some_iff.mp ht).1

theorem At.append (ha : At h k P) (h' : List α) : At (h ++ h') k P := by
  obtain ⟨u, hu, hP⟩ := ha
  exact ⟨u, (List.getElem?_append_left (At.lt ⟨u, hu, hP⟩)).trans hu, hP⟩

theorem At.imp {Q : α → Prop} (ha : At h k P) (hPQ : ∀ t, P t → Q t) : At h k Q :=
  Exists.imp (fun t ht => ⟨ht.1, hPQ t ht.2⟩) ha

theorem At.snoc (ha : At h k P) (t : α) : At (h ++ [t]) k P := ha.append [t]

theorem at_length (ht : P t) : At (h ++ [t]) h.length P :=
  ⟨t, List.getElem?_concat_length, ht⟩

/-- An entry of a longer list is one of the shorter list, or its last. -/
theorem of_getElem?_concat {u : α} (hu : (h ++ [t])[k]? = some u) :
    h[k]? = some u ∨ (k = h.length ∧ u = t) := by
  rcases Nat.lt_trichotomy k h.length with hlt | rfl | hgt
  · rw [List.getElem?_append_left hlt] at hu
    exact Or.inl hu
  · rw [List.getElem?_concat_length] at hu
    cases hu
    exact Or.inr ⟨rfl, rfl⟩
  · rw [List.getElem?_eq_none (by rw [List.length_append]; exact hgt)] at hu
    cases hu

theorem Since.snoc (hs : Since h k P) (ht : P t) : Since (h ++ [t]) k P := by
  intro j u hj hu
  rcases of_getElem?_concat hu with hu | ⟨-, rfl⟩
  · exact hs j u hj hu
  · exact ht

/-- Past the end there is nothing. -/
theorem since_of_length_le (hk : h.length ≤ k) : Since h k P := by
  intro j t hj ht
  rw [List.getElem?_eq_none (Nat.le_trans hk hj)] at ht
  cases ht

theorem since_length (ht : P t) : Since (h ++ [t]) h.length P :=
  (since_of_length_le (Nat.le_refl _)).snoc ht

/-- `P` holds of every entry strictly between two positions. -/
def Between (h : List α) (k m : ℕ) (P : α → Prop) : Prop :=
  ∀ j t, k < j → j < m → h[j]? = some t → P t

theorem Since.between (hs : Since h (k + 1) P) (m : ℕ) : Between h k m P :=
  fun j t hk _ ht => hs j t hk ht

theorem Between.append {m : ℕ} (hb : Between h k m P) (hm : m ≤ h.length) (h' : List α) :
    Between (h ++ h') k m P := by
  intro j u hk hj hu
  rw [List.getElem?_append_left (Nat.lt_of_lt_of_le hj hm)] at hu
  exact hb j u hk hj hu

/-- The last entry with `P` has one position. -/
theorem At.unique {k' : ℕ} (ha : At h k P) (hs : Since h (k + 1) (fun t => ¬ P t))
    (ha' : At h k' P) (hs' : Since h (k' + 1) (fun t => ¬ P t)) : k = k' := by
  obtain ⟨t, ht, hP⟩ := ha
  obtain ⟨t', ht', hP'⟩ := ha'
  rcases Nat.lt_trichotomy k k' with hlt | heq | hgt
  · exact absurd hP' (hs k' t' hlt ht')
  · exact heq
  · exact absurd hP (hs' k t hgt ht)

end Positions

/-- **What a step has brought about and every step keeps** holds at the end of
the run. -/
theorem Machine.Exec.keeps_from {σ ε : Type} {M : Machine σ ε} {h : List (Transition σ ε)} {s : σ}
    {Q : σ → Prop} {n : ℕ} {t : Transition σ ε} (hx : M.Exec h s) (ht : h[n]? = some t)
    (hQ : Q t.post) (hstep : ∀ {s e s'}, Q s → M.step s e = some s' → Q s') : Q s := by
  induction hx with
  | nil => cases ht
  | snoc hx he ih =>
    rcases of_getElem?_concat ht with ht | ⟨-, rfl⟩
    · exact hstep (ih ht) he
    · exact hQ
