import OutRelay.Prog
import OutRelay.Run

/-!
# Procedures at work together

A server runs one goroutine for each request. Each follows its procedure, and
what it performs acts on a state that all of them share, as do events that are
no goroutine's. A `Service` is such a server: the shared state, the procedure of
a request, what an operation with its answer does to the shared state – nothing,
where the answer is not one that the state allows – and the other events.

The goroutines are numbered as they start. Each carries what it has performed
and what is left of its procedure, so a statement about all paths of the
procedure is one about each goroutine that has returned (`all_of_returned`).

`each` is the rule for statements about one goroutine among the others, in the
style of rely and guarantee: it holds of a goroutine that starts, its own steps
keep it, and so do all other steps.
-/

namespace Prog

variable {E : Interface} {α : Type} {p q : Prog E α} {tr : List E.Event}

/-- **What is left of a procedure** after some events. -/
inductive Left (p : Prog E α) : List E.Event → Prog E α → Prop
  | nil : Left p [] p
  | snoc {tr : List E.Event} {o : E.Op} {k : E.Ans o → Prog E α} (ans : E.Ans o) :
      Left p tr (call o k) → Left p (tr ++ [⟨o, ans⟩]) (k ans)

/-- A statement about all paths is one about all ways to go on. -/
theorem Left.all {Q : List E.Event → α → Prop} (h : Left p tr q) (hp : p.All Q) :
    q.All (fun tr' a => Q (tr ++ tr') a) := by
  induction h with
  | nil => exact hp
  | snoc ans _ ih =>
    refine All.imp (ih ans) fun tr' a h => ?_
    rw [List.append_assoc]
    exact h

end Prog

/-- **A server**: the shared state at first, the procedure of a request, what an
operation does to the shared state, given a choice that the operation leaves
open, and what else happens to it. -/
structure Service (E : Interface) (σ τ κ ε : Type) where
  init : σ
  code : τ → Prog E Unit
  act : κ → σ → E.Event → Option σ
  env : σ → ε → Option σ

/-- A goroutine: its request, what it has performed, and what is left to do. -/
structure Goroutine (E : Interface) (τ : Type) where
  request : τ
  done : List E.Event
  rest : Prog E Unit

/-- The shared state, and the goroutines in the order of their starts. -/
structure ServiceState (E : Interface) (σ τ : Type) where
  shared : σ
  procs : List (Goroutine E τ)

/-- A request arrives; a goroutine performs its next operation, which is answered
by `ω`; or something else happens. -/
inductive ServiceEvent (E : Interface) (τ κ ε : Type)
  | spawn (t : τ)
  | perform (i : ℕ) (ω : ∀ o, E.Ans o) (c : κ)
  | env (e : ε)

/-- A step of a run. -/
abbrev ServiceStep (E : Interface) (σ τ κ ε : Type) : Type :=
  Transition (ServiceState E σ τ) (ServiceEvent E τ κ ε)

namespace Service

variable {E : Interface} {σ τ κ ε : Type} (S : Service E σ τ κ ε)

def step (s : ServiceState E σ τ) : ServiceEvent E τ κ ε → Option (ServiceState E σ τ)
  | .spawn t => some { s with procs := s.procs ++ [⟨t, [], S.code t⟩] }
  | .perform i ω c =>
    match s.procs[i]? with
    | some ⟨t, done, .call o k⟩ =>
      (S.act c s.shared ⟨o, ω o⟩).map fun shared =>
        ⟨shared, s.procs.set i ⟨t, done ++ [⟨o, ω o⟩], k (ω o)⟩⟩
    | _ => none
  | .env e => (S.env s.shared e).map fun shared => { s with shared := shared }

/-- **The server as a machine.** -/
def machine : Machine (ServiceState E σ τ) (ServiceEvent E τ κ ε) :=
  ⟨⟨S.init, []⟩, S.step⟩

/-- The steps, as a relation. -/
inductive Steps (s : ServiceState E σ τ) :
    ServiceEvent E τ κ ε → ServiceState E σ τ → Prop
  | spawn (t : τ) : Steps s (.spawn t) { s with procs := s.procs ++ [⟨t, [], S.code t⟩] }
  | perform {i : ℕ} {ω : ∀ o, E.Ans o} {c : κ} {t : τ} {done : List E.Event} {o : E.Op}
      {k : E.Ans o → Prog E Unit} {shared : σ} (hi : s.procs[i]? = some ⟨t, done, .call o k⟩)
      (hact : S.act c s.shared ⟨o, ω o⟩ = some shared) :
      Steps s (.perform i ω c)
        ⟨shared, s.procs.set i ⟨t, done ++ [⟨o, ω o⟩], k (ω o)⟩⟩
  | env {e : ε} {shared : σ} (he : S.env s.shared e = some shared) :
      Steps s (.env e) { s with shared := shared }

variable {S} {s s' : ServiceState E σ τ} {e : ServiceEvent E τ κ ε}
  {h : List (ServiceStep E σ τ κ ε)}

theorem steps_of_step (hstep : S.machine.step s e = some s') : S.Steps s e s' := by
  have hstep : S.step s e = some s' := hstep
  cases e with
  | spawn t =>
    cases hstep
    exact .spawn t
  | perform i ω c =>
    simp only [step] at hstep
    split at hstep
    case h_1 t done o k hi =>
      obtain ⟨shared, hact, rfl⟩ := Option.map_eq_some_iff.mp hstep
      exact .perform hi hact
    · cases hstep
  | env e =>
    obtain ⟨shared, he, rfl⟩ := Option.map_eq_some_iff.mp hstep
    exact .env he

/-- A goroutine that has an operation to perform performs it, if the state allows. -/
theorem step_perform {i : ℕ} {ω : ∀ o, E.Ans o} {c : κ} {t : τ} {done : List E.Event} {o : E.Op}
    {k : E.Ans o → Prog E Unit} {shared : σ} (hi : s.procs[i]? = some ⟨t, done, .call o k⟩)
    (hact : S.act c s.shared ⟨o, ω o⟩ = some shared) : S.machine.step s (.perform i ω c)
      = some ⟨shared, s.procs.set i ⟨t, done ++ [⟨o, ω o⟩], k (ω o)⟩⟩ := by
  show S.step s (.perform i ω c) = _
  rw [step, hi]
  dsimp only
  rw [hact]
  rfl

/-- The step is one of goroutine `i`. -/
def IsOf (i : ℕ) (e : ServiceEvent E τ κ ε) : Prop := ∃ ω c, e = .perform i ω c

/-- **Goroutine `i` performs `ev` in the step `t`**, under the choice `c`. -/
def Performs (t : ServiceStep E σ τ κ ε) (i : ℕ) (c : κ) (ev : E.Event) : Prop :=
  ∃ ω g k, t.ev = .perform i ω c ∧ t.pre.procs[i]? = some g ∧ g.rest = .call ev.op k
    ∧ ω ev.op = ev.ans

/-- A step of a goroutine performs one operation. -/
theorem Performs.unique {t : ServiceStep E σ τ κ ε} {i : ℕ} {c c' : κ} {ev ev' : E.Event}
    (hev : Performs t i c ev) (hev' : Performs t i c' ev') : c = c' ∧ ev = ev' := by
  obtain ⟨ω, g, k, he, hi, hrest, hans⟩ := hev
  obtain ⟨ω', g', k', he', hi', hrest', hans'⟩ := hev'
  obtain ⟨o, a⟩ := ev
  obtain ⟨o', a'⟩ := ev'
  cases he.symm.trans he'
  cases hi.symm.trans hi'
  cases hrest.symm.trans hrest'
  have hans : ω o = a := hans
  have hans' : ω o = a' := hans'
  subst hans
  subst hans'
  exact ⟨rfl, rfl⟩

/-- Only goroutines that have started perform anything. -/
theorem lt_of_isOf (hx : S.machine.Exec h s) {i : ℕ} {t : ServiceStep E σ τ κ ε} (ht : t ∈ h)
    (hi : IsOf i t.ev) : i < s.procs.length := by
  induction hx with
  | nil => cases ht
  | @snoc h s s' e hx hstep ih =>
    have hsteps := steps_of_step hstep
    have hlen : s.procs.length ≤ s'.procs.length := by
      cases hsteps with
      | spawn t =>
        show s.procs.length ≤ (s.procs ++ [_]).length
        rw [List.length_append]
        exact Nat.le_add_right _ _
      | perform hi hact => exact Nat.le_of_eq (List.length_set ..).symm
      | env he => exact Nat.le_refl _
    obtain ht | ht := List.mem_append.mp ht
    · exact Nat.lt_of_lt_of_le (ih ht) hlen
    · cases List.mem_singleton.mp ht
      obtain ⟨ω, c, rfl⟩ := hi
      cases hsteps with
      | perform hi hact => exact Nat.lt_of_lt_of_le (List.getElem?_eq_some_iff.mp hi).1 hlen

/-- **The rule for one goroutine among the others.** A statement about the run so
far, the shared state and a goroutine holds of every goroutine in every state, if
it holds at the start of each, if the goroutine's own steps keep it, and if all
other steps do. -/
theorem each {P : List (ServiceStep E σ τ κ ε) → σ → ℕ → Goroutine E τ → Prop}
    (hspawn : ∀ h s t, S.machine.Exec h s → (∀ u ∈ h, ¬ IsOf s.procs.length u.ev) →
      P h s.shared s.procs.length ⟨t, [], S.code t⟩)
    (hown : ∀ h s s' i e c t done o k ans, S.machine.Exec h s → S.machine.step s e = some s' →
      Performs (⟨s, e, s'⟩ : ServiceStep E σ τ κ ε) i c ⟨o, ans⟩ →
      S.act c s.shared ⟨o, ans⟩ = some s'.shared → P h s.shared i ⟨t, done, .call o k⟩ →
      P (h ++ [⟨s, e, s'⟩]) s'.shared i ⟨t, done ++ [⟨o, ans⟩], k ans⟩)
    (hother : ∀ h s s' i e g, S.machine.Exec h s → S.machine.step s e = some s' →
      ¬ IsOf i e → P h s.shared i g → P (h ++ [⟨s, e, s'⟩]) s'.shared i g)
    (hx : S.machine.Exec h s) {i : ℕ} {g : Goroutine E τ} (hi : s.procs[i]? = some g) :
    P h s.shared i g := by
  induction hx generalizing i g with
  | nil => cases hi
  | @snoc h s s' e hx hstep ih =>
    have hkeep : ∀ {i g}, ¬ IsOf i e → P h s.shared i g → P (h ++ [⟨s, e, s'⟩]) s'.shared i g :=
      fun hnot hP => hother h s s' _ e _ hx hstep hnot hP
    cases steps_of_step hstep with
    | spawn t =>
      have hnot : ∀ i, ¬ IsOf i (ServiceEvent.spawn (E := E) (κ := κ) (ε := ε) t) := by
        rintro i ⟨ω, c, he⟩
        cases he
      obtain hi | ⟨rfl, rfl⟩ := of_getElem?_concat hi
      · exact hkeep (hnot i) (ih hi)
      · refine hkeep (hnot _) (hspawn h s t hx fun u hu hof => ?_)
        exact Nat.lt_irrefl _ (lt_of_isOf hx hu hof)
    | @perform j ω c t done o k shared hj hact =>
      by_cases hij : j = i
      · subst hij
        have hg : (⟨t, done ++ [⟨o, ω o⟩], k (ω o)⟩ : Goroutine E τ) = g := by
          have hi : (s.procs.set j _)[j]? = some g := hi
          rw [List.getElem?_set_self (List.getElem?_eq_some_iff.mp hj).1] at hi
          exact Option.some.inj hi
        subst hg
        exact hown h s _ j _ c t done o k (ω o) hx hstep
          ⟨ω, _, k, rfl, hj, rfl, rfl⟩ hact (ih hj)
      · have hi : (s.procs.set j _)[i]? = some g := hi
        rw [List.getElem?_set_ne hij] at hi
        refine hkeep (fun ⟨_, _, he⟩ => ?_) (ih hi)
        cases he
        exact hij rfl
    | env he => exact hkeep (fun ⟨_, _, he⟩ => by cases he) (ih hi)

/-- **What a goroutine has performed is the beginning of a path of its procedure**,
and the rest is what is left of it. -/
theorem left_of_exec (hx : S.machine.Exec h s) {i : ℕ} {g : Goroutine E τ}
    (hi : s.procs[i]? = some g) : (S.code g.request).Left g.done g.rest := by
  refine each (P := fun _ _ _ g => (S.code g.request).Left g.done g.rest) ?_ ?_ ?_ hx hi
  · intro h s t _ _
    exact .nil
  · intro h s s' i e c t done o k ans _ _ _ _ hP
    exact .snoc ans hP
  · intro h s s' i e g _ _ _ hP
    exact hP

/-- **A statement about all paths holds of every goroutine that has returned.** -/
theorem all_of_returned {Q : List E.Event → Prop} (hx : S.machine.Exec h s) {i : ℕ}
    {g : Goroutine E τ} (hi : s.procs[i]? = some g) (hret : g.rest = .ret ())
    (hall : (S.code g.request).All (fun tr _ => Q tr)) : Q g.done := by
  have hleft := (left_of_exec hx hi).all hall
  rw [hret] at hleft
  have hQ : Q (g.done ++ []) := hleft
  rwa [List.append_nil] at hQ

/-- **Every step of a goroutine performs an operation that it remembers**, and acts
on the shared state as that operation does. -/
theorem performs_of_isOf (hx : S.machine.Exec h s) {i : ℕ} {g : Goroutine E τ}
    (hi : s.procs[i]? = some g) {t : ServiceStep E σ τ κ ε} (ht : t ∈ h) (hof : IsOf i t.ev) :
    ∃ c, ∃ ev ∈ g.done, Performs t i c ev
      ∧ S.act c t.pre.shared ev = some t.post.shared := by
  refine each (P := fun h _ i g => ∀ t ∈ h, IsOf i t.ev → ∃ c, ∃ ev ∈ g.done, Performs t i c ev
    ∧ S.act c t.pre.shared ev = some t.post.shared) ?_ ?_ ?_ hx hi t ht hof
  · intro h s t _ hnew u hu hof
    exact absurd hof (hnew u hu)
  · intro h s s' i e c t done o k ans _ _ hperf hact hP u hu hof
    obtain hu | hu := List.mem_append.mp hu
    · obtain ⟨c', ev, hev, hold⟩ := hP u hu hof
      exact ⟨c', ev, List.mem_append_left _ hev, hold⟩
    · cases List.mem_singleton.mp hu
      exact ⟨c, ⟨o, ans⟩, List.mem_append_right _ (List.mem_singleton_self _), hperf, hact⟩
  · intro h s s' i e g _ _ hnot hP u hu hof
    obtain hu | hu := List.mem_append.mp hu
    · exact hP u hu hof
    · cases List.mem_singleton.mp hu
      exact absurd hof hnot

end Service
