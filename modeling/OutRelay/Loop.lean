import OutRelay.Prog

/-!
# Loops and deferred calls

A server's goroutine often is a loop: it reads, acts, and goes on until
something tells it to stop. A procedure is a finite tree, so its loop is cut
after a number of rounds. What the loop of the source has done at any moment it
has done within some number of rounds, and a statement for every number covers
it.

`rounds body n` repeats `body` as long as it returns `true`, and at most `n`
times. `all_rounds` and `sites_rounds` are the rules of a loop invariant: it
holds of no events, and each round carries it on. `deferred d body` runs `d`
after `body`.
-/

namespace Prog

variable {E : Interface} {α : Type}

theorem bind_ret (p : Prog E α) : p.bind ret = p := by
  induction p with
  | ret a => rfl
  | call o k ih => exact congrArg (call o) (funext ih)

theorem bind_bind {β γ : Type} (p : Prog E α) (f : α → Prog E β) (g : β → Prog E γ) :
    (p.bind f).bind g = p.bind fun a => (f a).bind g := by
  induction p with
  | ret a => rfl
  | call o k ih => exact congrArg (call o) (funext ih)

instance : LawfulMonad (Prog E) := LawfulMonad.mk' (Prog E) bind_ret (fun _ _ => rfl) bind_bind

/-- **A loop**, cut after `n` rounds. -/
def rounds (body : Prog E Bool) : ℕ → Prog E Unit
  | 0 => pure ()
  | n + 1 => do
    if ← body then rounds body n else pure ()

/-- Run `body`, then `d`. -/
def deferred (d : Prog E Unit) (body : Prog E α) : Prog E α := do
  let a ← body
  d
  pure a

variable {body : Prog E Bool} {d : Prog E Unit} {p : Prog E α} {A : E.Op → Prop}
  {I : List E.Event → Prop} {Q : List E.Event → α → Prop} {R : List E.Event → E.Op → Prop} {n : ℕ}

/-! ## Every path -/

theorem all_pure {a : α} : (pure a : Prog E α).All Q ↔ Q [] a := Iff.rfl

/-- The rule for an operation. -/
theorem all_call {o : E.Op} {k : E.Ans o → Prog E α} :
    (perform o >>= k).All Q ↔ ∀ r, (k r).All fun tr a => Q (⟨o, r⟩ :: tr) a := Iff.rfl

theorem All.and {Q' : List E.Event → α → Prop} (h : p.All Q) (h' : p.All Q') :
    p.All (fun tr a => Q tr a ∧ Q' tr a) :=
  all_iff.mpr fun tr a hp => ⟨all_iff.mp h tr a hp, all_iff.mp h' tr a hp⟩

/-- **The invariant of a loop**, after some events. -/
theorem all_rounds_from (hstep : ∀ tr, I tr → body.All fun tr' _ => I (tr ++ tr')) (n : ℕ)
    {tr : List E.Event} (htr : I tr) : (rounds body n).All fun tr' _ => I (tr ++ tr') := by
  induction n generalizing tr with
  | zero =>
    rw [rounds, all_pure, List.append_nil]
    exact htr
  | succ n ih =>
    rw [rounds, all_bind]
    refine All.imp (hstep tr htr) fun tr' go hgo => ?_
    cases go with
    | false =>
      rw [if_neg Bool.false_ne_true, all_pure, List.append_nil]
      exact hgo
    | true =>
      rw [if_pos rfl]
      refine All.imp (ih hgo) fun tr'' _ h => ?_
      rwa [← List.append_assoc]

/-- **The rule of a loop invariant.** -/
theorem all_rounds (h₀ : I []) (hstep : ∀ tr, I tr → body.All fun tr' _ => I (tr ++ tr')) :
    (rounds body n).All fun tr _ => I tr := all_rounds_from hstep n h₀

/-- **Two accounts of the events** that agree after each round agree after the
loop, as long as the environment keeps to `C`. -/
theorem all_rounds_filterMap {β : Type} {f g : E.Event → Option β} {C : E.Event → Prop}
    (h : body.All fun tr _ => (∀ ev ∈ tr, C ev) → tr.filterMap f = tr.filterMap g) :
    (rounds body n).All fun tr _ => (∀ ev ∈ tr, C ev) → tr.filterMap f = tr.filterMap g := by
  refine all_rounds (I := fun tr => (∀ ev ∈ tr, C ev) → tr.filterMap f = tr.filterMap g)
    (fun _ => rfl) fun tr htr => All.imp h fun tr' _ htr' hC => ?_
  rw [List.forall_mem_append] at hC
  rw [List.filterMap_append, List.filterMap_append, htr hC.1, htr' hC.2]

theorem all_deferred :
    (deferred d p).All Q ↔ p.All fun tr a => d.All fun tr' _ => Q (tr ++ tr') a := by
  unfold deferred
  rw [all_bind]
  refine ⟨fun h => All.imp h fun tr a h => ?_, fun h => All.imp h fun tr a h => ?_⟩
  · rw [all_bind] at h
    refine All.imp h fun tr' _ h => ?_
    rwa [all_pure, List.append_nil] at h
  · rw [all_bind]
    refine All.imp h fun tr' _ h => ?_
    rwa [all_pure, List.append_nil]

/-- On the path of `ω`, every answer is that of `ω`. -/
theorem ans_of_mem_run {ω : ∀ o, E.Ans o} {ev : E.Event} (hev : ev ∈ (p.run ω).fst) :
    ev.ans = ω ev.op := by
  induction p with
  | ret a => cases hev
  | call o k ih =>
    obtain rfl | hev := List.mem_cons.mp hev
    · rfl
    · exact ih (ω o) hev

/-! ## Every operation -/

theorem sites_pure {a : α} : (pure a : Prog E α).Sites R := trivial

/-- The rule for an operation. -/
theorem sites_call {o : E.Op} {k : E.Ans o → Prog E α} : (perform o >>= k).Sites R
    ↔ R [] o ∧ ∀ r, (k r).Sites fun tr o' => R (⟨o, r⟩ :: tr) o' := Iff.rfl

theorem Sites.and {R' : List E.Event → E.Op → Prop} (h : p.Sites R) (h' : p.Sites R') :
    p.Sites fun tr o => R tr o ∧ R' tr o := by
  induction p generalizing R R' with
  | ret a => trivial
  | call o k ih => exact ⟨⟨h.1, h'.1⟩, fun r => ih r (h.2 r) (h'.2 r)⟩

/-- The operations of a loop, after some events of which the invariant holds. -/
theorem sites_rounds_from (hstep : ∀ tr, I tr → body.All fun tr' _ => I (tr ++ tr'))
    (hsite : ∀ tr, I tr → body.Sites fun tr' o => R (tr ++ tr') o) (n : ℕ) {tr : List E.Event}
    (htr : I tr) : (rounds body n).Sites fun tr' o => R (tr ++ tr') o := by
  induction n generalizing tr with
  | zero => trivial
  | succ n ih =>
    rw [rounds, sites_bind]
    refine ⟨hsite tr htr, All.imp (hstep tr htr) fun tr' go hgo => ?_⟩
    cases go with
    | false => exact sites_pure
    | true =>
      rw [if_pos rfl]
      refine Sites.imp (ih hgo) fun tr'' o h => ?_
      rwa [← List.append_assoc]

/-- **The rule of a loop invariant**, for the operations on the way. -/
theorem sites_rounds (h₀ : I []) (hstep : ∀ tr, I tr → body.All fun tr' _ => I (tr ++ tr'))
    (hsite : ∀ tr, I tr → body.Sites fun tr' o => R (tr ++ tr') o) :
    (rounds body n).Sites R := sites_rounds_from hstep hsite n h₀

theorem Within.rounds (h : body.Within A) : (rounds body n).Within A :=
  sites_rounds (I := fun _ => True) trivial (fun _ _ => all_iff.mpr fun _ _ _ => trivial)
    fun _ _ => h

theorem sites_deferred : (deferred d p).Sites R
    ↔ p.Sites R ∧ p.All fun tr _ => d.Sites fun tr' o => R (tr ++ tr') o := by
  unfold deferred
  rw [sites_bind]
  refine and_congr_right fun _ => ⟨fun h => All.imp h fun tr _ h => ?_,
    fun h => All.imp h fun tr _ h => ?_⟩
  · exact (sites_bind.mp h).1
  · exact sites_bind.mpr ⟨h, all_iff.mpr fun _ _ _ => sites_pure⟩

theorem Within.deferred (hd : d.Within A) (hp : p.Within A) : (deferred d p).Within A :=
  Within.bind hp fun _ => Within.bind hd fun _ => within_pure

/-! ## Straight lines -/

/-- **`p` performs the operations `os`**, whatever is answered. -/
def Does (p : Prog E α) (os : List E.Op) : Prop := p.All fun tr _ => tr.map Interface.Event.op = os

theorem does_pure {a : α} : (pure a : Prog E α).Does [] := rfl

theorem does_perform {o : E.Op} : (perform o).Does [o] := fun _ => rfl

theorem Does.bind {β : Type} {f : α → Prog E β} {l k : List E.Op} (hp : p.Does l)
    (hf : ∀ a, (f a).Does k) : (p >>= f).Does (l ++ k) := by
  unfold Does
  rw [all_bind]
  refine All.imp hp fun tr a htr => All.imp (hf a) fun tr' _ htr' => ?_
  rw [List.map_append, htr, htr']

/-- Operations that `p` never performs are not among those it has. -/
theorem Within.filter_eq_nil {f : E.Op → Bool} (h : p.Within fun o => f o = false) :
    p.All fun tr _ => (tr.map Interface.Event.op).filter f = [] := by
  refine All.imp (Sites.only h) fun tr _ htr => List.filter_eq_nil_iff.mpr fun o ho => ?_
  obtain ⟨ev, hev, rfl⟩ := List.mem_map.mp ho
  exact Bool.eq_false_iff.mp (htr ev hev)

end Prog
