import OutRelay.Admission

/-!
# Two servers over one state

Two servers may share a state: what the goroutines of one do to it, those of the
other see. `Service.join` is the machine of both, whose steps are the steps of
either. Each keeps its own goroutines, numbered as they start.

To one of the two servers the other is something that happens to the shared state.
So what holds of the goroutines of a server whatever happens to its state holds of
them in the joint machine as well (`left_of_join`, `site_left`). In every step
the goroutines of both keep what they have performed (`Joint.Extends`). That is the
way to statements across the two: what holds of an event when it is performed, and
does not depend on more than what goroutines have performed, is remembered
(`remembers_left`, `remembers_right`).
-/

/-- Two servers: what they share, and the goroutines of each. -/
structure Joint (E F : Interface) (σ τ υ : Type) where
  shared : σ
  left : List (Goroutine E τ)
  right : List (Goroutine F υ)

namespace Joint

variable {E F : Interface} {σ τ υ : Type} {s s' s'' : Joint E F σ τ υ}

/-- The first server. -/
def onLeft (s : Joint E F σ τ υ) : ServiceState E σ τ := ⟨s.shared, s.left⟩

/-- The second server. -/
def onRight (s : Joint E F σ τ υ) : ServiceState F σ υ := ⟨s.shared, s.right⟩

/-- The two servers in the other order. -/
def swap (s : Joint E F σ τ υ) : Joint F E σ υ τ := ⟨s.shared, s.right, s.left⟩

/-- **Goroutines keep their requests, and what they have performed.** -/
structure Extends (s s' : Joint E F σ τ υ) : Prop where
  left : ∀ {i : ℕ} {g : Goroutine E τ}, s.left[i]? = some g →
    ∃ g' : Goroutine E τ, s'.left[i]? = some g' ∧ g'.request = g.request ∧ g.done <+: g'.done
  right : ∀ {i : ℕ} {g : Goroutine F υ}, s.right[i]? = some g →
    ∃ g' : Goroutine F υ, s'.right[i]? = some g' ∧ g'.request = g.request ∧ g.done <+: g'.done

theorem Extends.swap (h : s.Extends s') : s.swap.Extends s'.swap := ⟨h.right, h.left⟩

end Joint

namespace Service

variable {E F : Interface} {σ τ υ κ κ' ε ε' : Type}

/-- A server whose state starts as `s₀`, and others may change. -/
def among (S : Service E σ τ κ ε) (s₀ : σ) : Service E σ τ κ (ε ⊕ σ) where
  init := s₀
  code := S.code
  act := S.act
  env s
    | .inl e => S.env s e
    | .inr s' => some s'

/-- **The machine of two servers.** -/
def join (S : Service E σ τ κ ε) (T : Service F σ υ κ' ε') (s₀ : σ) :
    Machine (Joint E F σ τ υ) (ServiceEvent E τ κ ε ⊕ ServiceEvent F υ κ' ε') where
  init := ⟨s₀, [], []⟩
  step s
    | .inl e => (S.step s.onLeft e).map fun s' => ⟨s'.shared, s'.procs, s.right⟩
    | .inr e => (T.step s.onRight e).map fun s' => ⟨s'.shared, s.left, s'.procs⟩

variable {S : Service E σ τ κ ε} {T : Service F σ υ κ' ε'} {s₀ : σ} {s s' : Joint E F σ τ υ}

theorem step_left {e : ServiceEvent E τ κ ε} (hstep : (S.join T s₀).step s (.inl e) = some s') :
    S.machine.step s.onLeft e = some s'.onLeft ∧ s'.right = s.right := by
  obtain ⟨u, hu, rfl⟩ := Option.map_eq_some_iff.mp hstep
  exact ⟨hu, rfl⟩

theorem step_right {e : ServiceEvent F υ κ' ε'} (hstep : (S.join T s₀).step s (.inr e) = some s') :
    T.machine.step s.onRight e = some s'.onRight ∧ s'.left = s.left := by
  obtain ⟨u, hu, rfl⟩ := Option.map_eq_some_iff.mp hstep
  exact ⟨hu, rfl⟩

/-- A step of the server is one among others. -/
theorem exists_step_among (start : σ) {e : ServiceEvent E τ κ ε} {u u' : ServiceState E σ τ}
    (hstep : S.machine.step u e = some u') :
    ∃ e', (S.among start).machine.step u e' = some u' := by
  cases e with
  | spawn t => exact ⟨.spawn t, hstep⟩
  | perform i ω c => exact ⟨.perform i ω c, hstep⟩
  | env e => exact ⟨.env (.inl e), hstep⟩

/-- What the other server does is a change of the state. -/
theorem step_among_env {u u' : ServiceState E σ τ} (hprocs : u'.procs = u.procs) :
    (S.among s₀).machine.step u (.env (.inr u'.shared)) = some u' := by
  obtain ⟨shared, procs⟩ := u'
  cases hprocs
  rfl

variable {h : List (Transition (Joint E F σ τ υ) (ServiceEvent E τ κ ε ⊕ ServiceEvent F υ κ' ε'))}
  {ok : Joint E F σ τ υ → ServiceEvent E τ κ ε ⊕ ServiceEvent F υ κ' ε' → Bool}

/-- **The first server runs as one among others.** -/
theorem reachable_left (hx : (S.join T s₀).Exec h s) :
    (S.among s₀).machine.Reachable s.onLeft := by
  induction hx with
  | nil => exact Machine.Reachable.init
  | @snoc h s s' e hx hstep ih =>
    cases e with
    | inl e =>
      obtain ⟨e', he'⟩ := exists_step_among s₀ (step_left hstep).1
      exact ih.step he'
    | inr e => exact ih.step (step_among_env (step_right hstep).2)

/-- What a goroutine of the first server has performed, and what is left. -/
theorem left_of_join (hx : ((S.join T s₀).guard ok).Exec h s) {i : ℕ} {g : Goroutine E τ}
    (hi : s.left[i]? = some g) : (S.code g.request).Left g.done g.rest := by
  obtain ⟨h', hx'⟩ := reachable_left (Machine.Exec.of_guard hx)
  exact left_of_exec hx' hi

/-- An operation of the first server stands where its procedure has it. -/
theorem site_left {R : τ → List E.Event → E.Op → Prop} (hR : ∀ t, (S.code t).Sites (R t))
    (hx : ((S.join T s₀).guard ok).Exec h s) {i : ℕ} {g : Goroutine E τ} {o : E.Op}
    {k : E.Ans o → Prog E Unit} (hi : s.left[i]? = some g) (hrest : g.rest = .call o k) :
    R g.request g.done o := by
  have hsites := (left_of_join hx hi).sites (hR g.request)
  rw [hrest] at hsites
  have hsite : R g.request (g.done ++ []) o := hsites.1
  rwa [List.append_nil] at hsite

/-- **A step keeps what has been performed.** -/
theorem extends_of_step {e : ServiceEvent E τ κ ε ⊕ ServiceEvent F υ κ' ε'}
    (hstep : (S.join T s₀).step s e = some s') : s.Extends s' := by
  cases e with
  | inl e =>
    obtain ⟨hstep, hright⟩ := step_left hstep
    exact ⟨fun hi => grows hstep hi, fun hi => ⟨_, hright ▸ hi, rfl, List.prefix_rfl⟩⟩
  | inr e =>
    obtain ⟨hstep, hleft⟩ := step_right hstep
    exact ⟨fun hi => ⟨_, hleft ▸ hi, rfl, List.prefix_rfl⟩, fun hi => grows hstep hi⟩

/-! ## What is remembered -/

/-- **Goroutine `i` of the first server performs `ev` in the step `t`**, for the request
`q`, when it has performed `pre`. -/
def PerformsAfter (S : Service E σ τ κ ε)
    (t : Transition (Joint E F σ τ υ) (ServiceEvent E τ κ ε ⊕ ServiceEvent F υ κ' ε'))
    (i : ℕ) (q : τ) (pre : List E.Event) (ev : E.Event) : Prop :=
  ∃ e c g, t.ev = .inl e ∧ t.pre.left[i]? = some g ∧ g.request = q ∧ g.done = pre
    ∧ Performs (⟨t.pre.onLeft, e, t.post.onLeft⟩ : ServiceStep E σ τ κ ε) i c ev
    ∧ S.act c t.pre.shared ev = some t.post.shared

/-- **What a goroutine of the first server has performed, it performed in a step of the
run.** -/
theorem performed_left (hx : ((S.join T s₀).guard ok).Exec h s) {i : ℕ} {g : Goroutine E τ}
    (hi : s.left[i]? = some g) {pre post : List E.Event} {ev : E.Event}
    (hdone : g.done = pre ++ ev :: post) : ∃ t ∈ h, S.PerformsAfter t i g.request pre ev := by
  induction hx generalizing g post with
  | nil => cases hi
  | @snoc h s s' e hx hstep ih =>
    have hstep := (Machine.step_guard hstep).2
    cases e with
    | inr e =>
      rw [(step_right hstep).2] at hi
      obtain ⟨t, ht, hperf⟩ := ih hi hdone
      exact ⟨t, List.mem_append_left _ ht, hperf⟩
    | inl e =>
      have hleft := (step_left hstep).1
      obtain ⟨g₀, hi₀, hreq⟩ | ⟨-, -, hnil⟩ := came hleft hi
      · -- performed before the step, unless it is the operation of the step
        have hbefore : ∀ post', g₀.done = pre ++ ev :: post' →
            ∃ t ∈ h ++ [⟨s, .inl e, s'⟩], S.PerformsAfter t i g.request pre ev := by
          intro post' hdone₀
          obtain ⟨t, ht, hperf⟩ := ih hi₀ hdone₀
          exact ⟨t, List.mem_append_left _ ht, hreq ▸ hperf⟩
        obtain ⟨g', hi', -, hsame | ⟨c, ev', hgrow, hperf, hact⟩⟩ := advances hleft hi₀
        · cases hi'.symm.trans hi
          exact hbefore post (hsame ▸ hdone)
        · cases hi'.symm.trans hi
          rw [hgrow] at hdone
          obtain rfl | ⟨post', x, rfl⟩ := post.eq_nil_or_concat
          · obtain ⟨hpre, hev⟩ := List.append_inj' hdone rfl
            cases hev
            exact ⟨_, List.mem_append_right _ (List.mem_singleton_self _),
              e, c, g₀, rfl, hi₀, hreq, hpre, hperf, hact⟩
          · rw [List.concat_eq_append, ← List.cons_append, ← List.append_assoc] at hdone
            exact hbefore post' (List.append_inj' hdone rfl).1
      · rw [hnil] at hdone
        exact absurd hdone.symm (List.append_ne_nil_of_right_ne_nil _ (List.cons_ne_nil _ _))

/-- **What holds of an event of the first server when it is performed, and is kept,
holds of all its events.** -/
theorem remembers_left {P : Joint E F σ τ υ → τ → E.Event → Prop}
    (hown : ∀ {s e s'}, ((S.join T s₀).guard ok).Reachable s → ok s (.inl e) = true →
      ∀ {i c g ev}, s.left[i]? = some g →
        Performs (⟨s.onLeft, e, Joint.onLeft s'⟩ : ServiceStep E σ τ κ ε) i c ev →
        S.act c s.shared ev = some s'.shared → s.Extends s' → P s' g.request ev)
    (hkeep : ∀ {s s' t ev}, s.Extends s' → P s t ev → P s' t ev)
    (hx : ((S.join T s₀).guard ok).Exec h s) {i : ℕ} {g : Goroutine E τ}
    (hi : s.left[i]? = some g) {ev : E.Event} (hev : ev ∈ g.done) : P s g.request ev := by
  obtain ⟨pre, post, hdone⟩ := List.append_of_mem hev
  obtain ⟨t, ht, e, c, g₀, he, hi₀, hreq, -, hperf, hact⟩ := performed_left hx hi hdone
  obtain ⟨hreach, hstep⟩ := hx.step_of_mem ht
  rw [he] at hstep
  obtain ⟨hok, hstep⟩ := Machine.step_guard hstep
  obtain ⟨n, hn⟩ := List.mem_iff_getElem?.mp ht
  refine hx.keeps_from (Q := fun s => P s g.request ev) hn ?_ fun hP hstep =>
    hkeep (extends_of_step (Machine.step_guard hstep).2) hP
  exact hreq ▸ hown hreach hok hi₀ hperf hact (extends_of_step hstep)

/-- **What holds of a request of the first server when it is admitted, and is kept,
holds of all its goroutines.** -/
theorem admitted_left {P : Joint E F σ τ υ → τ → Prop}
    (hok : ∀ {s t}, ((S.join T s₀).guard ok).Reachable s → ok s (.inl (.spawn t)) = true → P s t)
    (hkeep : ∀ {s s' t}, s.Extends s' → P s t → P s' t)
    (hx : ((S.join T s₀).guard ok).Exec h s) {i : ℕ} {g : Goroutine E τ}
    (hi : s.left[i]? = some g) : P s g.request := by
  induction hx generalizing i g with
  | nil => cases hi
  | @snoc h s s' e hx hstep ih =>
    obtain ⟨hadm, hstep⟩ := Machine.step_guard hstep
    refine hkeep (extends_of_step hstep) ?_
    cases e with
    | inl e =>
      obtain ⟨g₀, hi₀, hreq⟩ | ⟨-, rfl, -⟩ := came (step_left hstep).1 hi
      · exact hreq ▸ ih hi₀
      · exact hok ⟨h, hx⟩ hadm
    | inr e =>
      rw [(step_right hstep).2] at hi
      exact ih hi

/-! ## The second server

The order of the two makes no difference. -/

variable {ok' : Joint F E σ υ τ → ServiceEvent F υ κ' ε' ⊕ ServiceEvent E τ κ ε → Bool}

theorem step_swap {e : ServiceEvent E τ κ ε ⊕ ServiceEvent F υ κ' ε'}
    (hstep : (S.join T s₀).step s e = some s') :
    (T.join S s₀).step s.swap e.swap = some s'.swap := by
  cases e with
  | inl e =>
    obtain ⟨u, hu, rfl⟩ := Option.map_eq_some_iff.mp hstep
    exact Option.map_eq_some_iff.mpr ⟨u, hu, rfl⟩
  | inr e =>
    obtain ⟨u, hu, rfl⟩ := Option.map_eq_some_iff.mp hstep
    exact Option.map_eq_some_iff.mpr ⟨u, hu, rfl⟩

theorem reachable_swap (hok : ∀ s e, ok s e = true → ok' s.swap e.swap = true)
    (hs : ((S.join T s₀).guard ok).Reachable s) : ((T.join S s₀).guard ok').Reachable s.swap := by
  obtain ⟨h, hx⟩ := hs
  induction hx with
  | nil => exact Machine.Reachable.init
  | snoc _ hstep ih =>
    obtain ⟨hadm, hstep⟩ := Machine.step_guard hstep
    exact ih.step ((if_pos (hok _ _ hadm)).trans (step_swap hstep))

/-- What may happen, with the servers in the other order. -/
def swapGuard (ok : Joint E F σ τ υ → ServiceEvent E τ κ ε ⊕ ServiceEvent F υ κ' ε' → Bool) :
    Joint F E σ υ τ → ServiceEvent F υ κ' ε' ⊕ ServiceEvent E τ κ ε → Bool :=
  fun s e => ok s.swap e.swap

theorem swapGuard_of_ok (s : Joint E F σ τ υ) (e : ServiceEvent E τ κ ε ⊕ ServiceEvent F υ κ' ε')
    (hok : ok s e = true) : swapGuard ok s.swap e.swap = true := by
  unfold swapGuard
  rw [Sum.swap_swap]
  exact hok

theorem ok_of_swapGuard (s : Joint F E σ υ τ) (e : ServiceEvent F υ κ' ε' ⊕ ServiceEvent E τ κ ε)
    (hok : swapGuard ok s e = true) : ok s.swap e.swap = true := hok

theorem site_right {R : υ → List F.Event → F.Op → Prop} (hR : ∀ t, (T.code t).Sites (R t))
    (hx : ((S.join T s₀).guard ok).Exec h s) {i : ℕ} {g : Goroutine F υ} {o : F.Op}
    {k : F.Ans o → Prog F Unit} (hi : s.right[i]? = some g) (hrest : g.rest = .call o k) :
    R g.request g.done o := by
  obtain ⟨h', hx'⟩ := reachable_swap swapGuard_of_ok ⟨h, hx⟩
  exact site_left hR hx' hi hrest

theorem remembers_right {P : Joint E F σ τ υ → υ → F.Event → Prop}
    (hown : ∀ {s e s'}, ((S.join T s₀).guard ok).Reachable s → ok s (.inr e) = true →
      ∀ {i c g ev}, s.right[i]? = some g →
        Performs (⟨s.onRight, e, Joint.onRight s'⟩ : ServiceStep F σ υ κ' ε') i c ev →
        T.act c s.shared ev = some s'.shared → s.Extends s' → P s' g.request ev)
    (hkeep : ∀ {s s' t ev}, s.Extends s' → P s t ev → P s' t ev)
    (hx : ((S.join T s₀).guard ok).Exec h s) {i : ℕ} {g : Goroutine F υ}
    (hi : s.right[i]? = some g) {ev : F.Event} (hev : ev ∈ g.done) : P s g.request ev := by
  obtain ⟨h', hx'⟩ := reachable_swap swapGuard_of_ok ⟨h, hx⟩
  refine remembers_left (P := fun s => P s.swap) ?_ (fun hext => hkeep hext.swap) hx' hi hev
  intro s e s' hs hadm i c g ev hi hperf hact hext
  exact hown (reachable_swap ok_of_swapGuard hs) hadm hi hperf hact hext.swap

theorem admitted_right {P : Joint E F σ τ υ → υ → Prop}
    (hok : ∀ {s t}, ((S.join T s₀).guard ok).Reachable s → ok s (.inr (.spawn t)) = true → P s t)
    (hkeep : ∀ {s s' t}, s.Extends s' → P s t → P s' t)
    (hx : ((S.join T s₀).guard ok).Exec h s) {i : ℕ} {g : Goroutine F υ}
    (hi : s.right[i]? = some g) : P s g.request := by
  obtain ⟨h', hx'⟩ := reachable_swap swapGuard_of_ok ⟨h, hx⟩
  refine admitted_left (P := fun s => P s.swap) ?_ (fun hext => hkeep hext.swap) hx' hi
  intro s t hs hadm
  exact hok (reachable_swap ok_of_swapGuard hs) hadm

end Service
