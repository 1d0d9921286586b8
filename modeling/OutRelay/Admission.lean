import OutRelay.Goroutines

/-!
# Goroutines that start goroutines

In a `Service` any request may come at any time. In a server some goroutines
are started by others: the request is there because somebody has performed the
operation that starts it. What one goroutine reads may be what another has
written. `Machine.guard` keeps to the steps that are possible in this sense, and
its runs are runs of the machine (`Exec.of_guard`). What makes a state admit a
request, and is kept by every step, holds of every goroutine in every state
(`Service.admitted`).

The rest is about single goroutines. What one has performed only grows
(`grows`), each entry of it was a step of the run (`performed`), and each
operation stands at its place on a path of the procedure (`site_of_performs`,
`Prog.Left.site`). The `journal` of a run is what its steps have performed, and
that is what the goroutines have performed, taken together (`journal_perm`).
-/

/-! ## Machines with a guard -/

namespace Machine

variable {σ ε : Type} {M : Machine σ ε} {ok : σ → ε → Bool} {h : List (Transition σ ε)} {s : σ}

/-- **The machine that takes the steps `ok` allows.** -/
def guard (M : Machine σ ε) (ok : σ → ε → Bool) : Machine σ ε where
  init := M.init
  step s e := if ok s e then M.step s e else none

theorem step_guard {e : ε} {s' : σ} (hstep : (M.guard ok).step s e = some s') :
    ok s e = true ∧ M.step s e = some s' := by
  have hstep : (if ok s e then M.step s e else none) = some s' := hstep
  split_ifs at hstep with hok
  exact ⟨hok, hstep⟩

/-- A run of the guarded machine is a run. -/
theorem Exec.of_guard (hx : (M.guard ok).Exec h s) : M.Exec h s := by
  induction hx with
  | nil => exact .nil
  | snoc _ hstep ih => exact ih.snoc (step_guard hstep).2

/-- Every step of a run was allowed. -/
theorem Exec.guard_of_mem (hx : (M.guard ok).Exec h s) {t : Transition σ ε} (ht : t ∈ h) :
    ok t.pre t.ev = true :=
  (step_guard (hx.step_of_mem ht).2).1

end Machine

/-! ## Places on a path -/

namespace Prog

variable {E : Interface} {α : Type} {p q : Prog E α} {tr : List E.Event}
  {R : List E.Event → E.Op → Prop}

/-- A statement about the operations is one about those that are left. -/
theorem Left.sites (h : Left p tr q) (hp : p.Sites R) :
    q.Sites fun tr' o => R (tr ++ tr') o := by
  induction h with
  | nil => exact hp
  | snoc ans _ ih =>
    refine Sites.imp (ih.2 ans) fun tr' o hR => ?_
    rw [List.append_assoc]
    exact hR

/-- **Every event that has been performed stands where the procedure has it.** -/
theorem Left.site (h : Left p tr q) (hp : p.Sites R) {tr₁ tr₂ : List E.Event} {ev : E.Event}
    (htr : tr = tr₁ ++ ev :: tr₂) : R tr₁ ev.op := by
  induction h generalizing tr₂ with
  | nil => simp at htr
  | @snoc tr o k ans hleft ih =>
    rcases List.eq_nil_or_concat tr₂ with rfl | ⟨tr₃, ev', rfl⟩
    · obtain ⟨rfl, hev⟩ := List.append_inj' htr rfl
      cases hev
      have hsite : R (tr ++ []) o := (hleft.sites hp).1
      rwa [List.append_nil] at hsite
    · rw [List.concat_eq_append, ← List.cons_append, ← List.append_assoc] at htr
      exact ih (List.append_inj' htr rfl).1

end Prog

namespace Service

variable {E : Interface} {σ τ κ ε : Type} {S : Service E σ τ κ ε} {s s' : ServiceState E σ τ}
  {e : ServiceEvent E τ κ ε} {h : List (ServiceStep E σ τ κ ε)} {i : ℕ} {g : Goroutine E τ}

/-! ## One goroutine -/

/-- **A goroutine in a step**: it keeps its request, and has performed what it had before,
or one operation more, which has acted on the shared state. -/
theorem advances (hstep : S.machine.step s e = some s') (hi : s.procs[i]? = some g) :
    ∃ g', s'.procs[i]? = some g' ∧ g'.request = g.request
      ∧ (g'.done = g.done ∨ ∃ c ev, g'.done = g.done ++ [ev]
        ∧ Performs (⟨s, e, s'⟩ : ServiceStep E σ τ κ ε) i c ev
        ∧ S.act c s.shared ev = some s'.shared) := by
  have hlt := (List.getElem?_eq_some_iff.mp hi).1
  cases steps_of_step hstep with
  | spawn t => exact ⟨g, (List.getElem?_append_left hlt).trans hi, rfl, Or.inl rfl⟩
  | @perform j ω c t done o k shared hj hact =>
    by_cases hij : j = i
    · subst hij
      cases hj.symm.trans hi
      exact ⟨_, List.getElem?_set_self hlt, rfl,
        Or.inr ⟨c, ⟨o, ω o⟩, rfl, ⟨ω, _, k, rfl, hj, rfl, rfl⟩, hact⟩⟩
    · exact ⟨g, (List.getElem?_set_ne hij).trans hi, rfl, Or.inl rfl⟩
  | env he => exact ⟨g, hi, rfl, Or.inl rfl⟩

/-- **A goroutine keeps its request, and what it has performed.** -/
theorem grows (hstep : S.machine.step s e = some s') (hi : s.procs[i]? = some g) :
    ∃ g', s'.procs[i]? = some g' ∧ g'.request = g.request ∧ g.done <+: g'.done := by
  obtain ⟨g', hi', hreq, hdone | ⟨c, ev, hdone, -⟩⟩ := advances hstep hi
  · exact ⟨g', hi', hreq, hdone ▸ List.prefix_rfl⟩
  · exact ⟨g', hi', hreq, hdone ▸ List.prefix_append _ _⟩

/-- A goroutine after a step was there before, or has just started. -/
theorem came (hstep : S.machine.step s e = some s') {g' : Goroutine E τ}
    (hi : s'.procs[i]? = some g') :
    (∃ g, s.procs[i]? = some g ∧ g.request = g'.request)
      ∨ (i = s.procs.length ∧ e = .spawn g'.request ∧ g'.done = []) := by
  cases steps_of_step hstep with
  | spawn t =>
    obtain hi | ⟨rfl, rfl⟩ := of_getElem?_concat hi
    · exact Or.inl ⟨g', hi, rfl⟩
    · exact Or.inr ⟨rfl, rfl, rfl⟩
  | @perform j ω c t done o k shared hj hact =>
    have hi : (s.procs.set j _)[i]? = some g' := hi
    by_cases hij : j = i
    · subst hij
      rw [List.getElem?_set_self (List.getElem?_eq_some_iff.mp hj).1] at hi
      cases hi
      exact Or.inl ⟨_, hj, rfl⟩
    · rw [List.getElem?_set_ne hij] at hi
      exact Or.inl ⟨g', hi, rfl⟩
  | env he => exact Or.inl ⟨g', hi, rfl⟩

/-- A goroutine at the end of a run, and at one of its steps. -/
theorem grows_from (hx : S.machine.Exec h s) {t : ServiceStep E σ τ κ ε} (ht : t ∈ h)
    {g₀ : Goroutine E τ} (hi₀ : t.pre.procs[i]? = some g₀) (hi : s.procs[i]? = some g) :
    g.request = g₀.request ∧ g₀.done <+: g.done := by
  have hkeep : ∀ {s s' : ServiceState E σ τ} {e}, (∃ g, s.procs[i]? = some g
      ∧ g.request = g₀.request ∧ g₀.done <+: g.done) → S.machine.step s e = some s' →
      ∃ g, s'.procs[i]? = some g ∧ g.request = g₀.request ∧ g₀.done <+: g.done := by
    rintro s s' e ⟨g, hi, hreq, hdone⟩ hstep
    obtain ⟨g', hi', hreq', hdone'⟩ := grows hstep hi
    exact ⟨g', hi', hreq'.trans hreq, hdone.trans hdone'⟩
  obtain ⟨n, hn⟩ := List.mem_iff_getElem?.mp ht
  obtain ⟨g', hi', hreq, hdone⟩ := hx.keeps_from hn
    (hkeep ⟨g₀, hi₀, rfl, List.prefix_rfl⟩ (hx.step_of_mem ht).2) hkeep
  cases hi'.symm.trans hi
  exact ⟨hreq, hdone⟩

/-- **What a goroutine has performed it remembers.** -/
theorem mem_done (hx : S.machine.Exec h s) (hi : s.procs[i]? = some g)
    {t : ServiceStep E σ τ κ ε} (ht : t ∈ h) {c : κ} {ev : E.Event} (hperf : Performs t i c ev) :
    ev ∈ g.done := by
  obtain ⟨ω, g₀, k, he, -⟩ := id hperf
  obtain ⟨c', ev', hev', hperf', -⟩ := performs_of_isOf hx hi ht ⟨ω, c, he⟩
  cases (hperf.unique hperf').2
  exact hev'

/-- **What a goroutine has performed it performed in a step of the run.** -/
theorem performed (hx : S.machine.Exec h s) (hi : s.procs[i]? = some g) {ev : E.Event}
    (hev : ev ∈ g.done) : ∃ t ∈ h, ∃ c, Performs t i c ev
      ∧ S.act c t.pre.shared ev = some t.post.shared := by
  refine each (P := fun h _ i g => ∀ ev ∈ g.done, ∃ t ∈ h, ∃ c, Performs t i c ev
    ∧ S.act c t.pre.shared ev = some t.post.shared) ?_ ?_ ?_ hx hi ev hev
  · intro h s t _ _ ev hev
    cases hev
  · intro h s s' i e c t done o k ans _ _ hperf hact hP ev hev
    obtain hev | hev := List.mem_append.mp hev
    · obtain ⟨u, hu, hold⟩ := hP ev hev
      exact ⟨u, List.mem_append_left _ hu, hold⟩
    · cases List.mem_singleton.mp hev
      exact ⟨_, List.mem_append_right _ (List.mem_singleton_self _), c, hperf, hact⟩
  · intro h s s' i e g _ _ _ hP ev hev
    obtain ⟨u, hu, hold⟩ := hP ev hev
    exact ⟨u, List.mem_append_left _ hu, hold⟩

/-- **An operation that a goroutine performs stands where its procedure has it.** -/
theorem site_of_performs {R : τ → List E.Event → E.Op → Prop}
    (hR : ∀ t, (S.code t).Sites (R t)) {t : ServiceStep E σ τ κ ε} {c : κ} {ev : E.Event}
    (hx : S.machine.Exec h t.pre) (hperf : Performs t i c ev) :
    ∃ g, t.pre.procs[i]? = some g ∧ R g.request g.done ev.op := by
  obtain ⟨ω, g, k, -, hi, hrest, -⟩ := hperf
  have hsites := (left_of_exec hx hi).sites (hR g.request)
  rw [hrest] at hsites
  have hsite : R g.request (g.done ++ []) ev.op := hsites.1
  rw [List.append_nil] at hsite
  exact ⟨g, hi, hsite⟩

/-! ## The journal -/

/-- What a step performs, and the choice that it makes. -/
def performedIn (t : ServiceStep E σ τ κ ε) : Option (κ × E.Event) :=
  match t.ev with
  | .perform i ω c =>
    match t.pre.procs[i]? with
    | some ⟨_, _, .call o _⟩ => some (c, ⟨o, ω o⟩)
    | _ => none
  | _ => none

/-- **The journal of a run**: what its steps have performed, in their order. -/
def journal (h : List (ServiceStep E σ τ κ ε)) : List (κ × E.Event) := h.filterMap performedIn

theorem performedIn_of_performs {t : ServiceStep E σ τ κ ε} {c : κ} {v : E.Event}
    (hperf : Performs t i c v) : performedIn t = some (c, v) := by
  obtain ⟨ω, ⟨request, done, rest⟩, k, he, hi, hrest, hans⟩ := hperf
  obtain ⟨o, a⟩ := v
  have hans : ω o = a := hans
  subst hans
  cases hrest
  unfold performedIn
  rw [he]
  dsimp only
  rw [hi]

/-- An entry that grows, in a list of lists. -/
theorem flatMap_set_perm {α β : Type} {f : α → List β} {l : List α} {a a' : α} {r : List β}
    (hi : l[i]? = some a) (ha : f a' = f a ++ r) :
    ((l.set i a').flatMap f).Perm (l.flatMap f ++ r) := by
  obtain ⟨hlt, rfl⟩ := List.getElem?_eq_some_iff.mp hi
  have hl : l.flatMap f = (l.take i).flatMap f ++ (f l[i] ++ (l.drop (i + 1)).flatMap f) := by
    rw [← List.flatMap_cons, List.getElem_cons_drop, ← List.flatMap_append, List.take_append_drop]
  rw [List.set_eq_take_append_cons_drop, if_pos hlt, List.flatMap_append, List.flatMap_cons, ha, hl,
    List.append_assoc, List.append_assoc, List.append_assoc]
  exact (List.perm_append_comm.append_left _).append_left _

/-- **The journal is what the goroutines have performed.** -/
theorem journal_perm (hx : S.machine.Exec h s) :
    ((journal h).map Prod.snd).Perm (s.procs.flatMap Goroutine.done) := by
  induction hx with
  | nil => exact .nil
  | @snoc h s s' e hx hstep ih =>
    unfold journal
    rw [List.filterMap_append, List.map_append]
    cases steps_of_step hstep with
    | spawn t =>
      rw [List.flatMap_append]
      exact ih.append .nil
    | @perform i ω c t done o k shared hi hact =>
      rw [List.filterMap_cons, performedIn_of_performs (c := c) (v := ⟨o, ω o⟩)
        ⟨ω, _, k, rfl, hi, rfl, rfl⟩, List.filterMap_nil]
      exact (ih.append_right _).trans (flatMap_set_perm hi rfl).symm
    | env he => exact (List.append_nil _).symm ▸ ih

/-! ## Admission -/

/-- **The rule of admission.** What holds of a request where it is admitted, and is
kept by every step, holds of the request of every goroutine. -/
theorem admitted {ok : ServiceState E σ τ → ServiceEvent E τ κ ε → Bool}
    {P : ServiceState E σ τ → τ → Prop}
    (hok : ∀ s t, (S.machine.guard ok).Reachable s → ok s (.spawn t) = true → P s t)
    (hkeep : ∀ {s e s'} t, S.machine.step s e = some s' → P s t → P s' t)
    (hx : (S.machine.guard ok).Exec h s) (hi : s.procs[i]? = some g) : P s g.request := by
  induction hx generalizing i g with
  | nil => cases hi
  | @snoc h s s' e hx hstep ih =>
    obtain ⟨hadm, hstep⟩ := Machine.step_guard hstep
    refine hkeep _ hstep ?_
    cases steps_of_step hstep with
    | spawn t =>
      obtain hi | ⟨-, rfl⟩ := of_getElem?_concat hi
      · exact ih hi
      · exact hok s t ⟨h, hx⟩ hadm
    | @perform j ω c t done o k shared hj hact =>
      by_cases hij : j = i
      · subst hij
        have hi : (s.procs.set j _)[j]? = some g := hi
        rw [List.getElem?_set_self (List.getElem?_eq_some_iff.mp hj).1] at hi
        cases hi
        have hP : P s t := ih hj
        exact hP
      · have hi : (s.procs.set j _)[i]? = some g := hi
        rw [List.getElem?_set_ne hij] at hi
        exact ih hi
    | env he => exact ih hi

end Service
