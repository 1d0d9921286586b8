import Mathlib.Data.Set.Insert
import OutRelay.Prog

/-!
# What a procedure holds

A procedure that opens, locks or allocates has to give back what it takes on
every way out. A `Ledger` says which events take a resource and which give one
back, and `held H tr` is what is held after the events `tr`, if `H` was before.

`L.Spec H p K` is the judgement: if `H` is held, then whatever the environment
answers, no more than `K a` is held when `p` returns `a`. It has a rule of
composition (`Spec.bind`) and a rule of frame (`Spec.frame`), so each procedure
is judged by itself, from nothing held. `Balanced` is the case of a procedure
that leaves nothing, and `Spec.release` the rule for a deferred release.
-/

/-- **What the events of an interface take and give back.** -/
structure Ledger (E : Interface) (ρ : Type) where
  acquires : E.Event → Option ρ
  releases : E.Event → Option ρ

namespace Ledger

variable {E : Interface} {α β ρ : Type} (L : Ledger E ρ)

/-- What is held after an event. -/
def after (H : Set ρ) (ev : E.Event) : Set ρ :=
  {r | L.acquires ev = some r ∨ (r ∈ H ∧ L.releases ev ≠ some r)}

/-- **What is held after a list of events.** -/
def held (H : Set ρ) (tr : List E.Event) : Set ρ := tr.foldl L.after H

/-- **The judgement**: from `H`, at most `K a` is held when `p` returns `a`. -/
def Spec (H : Set ρ) (p : Prog E α) (K : α → Set ρ) : Prop :=
  p.All (fun tr a => L.held H tr ⊆ K a)

/-- The procedure leaves nothing held. -/
def Balanced (p : Prog E α) : Prop := L.Spec ∅ p (fun _ => ∅)

/-- The procedure gives `r` back, and takes nothing. -/
def Releases (r : ρ) (p : Prog E α) : Prop := ∀ H, L.Spec (insert r H) p (fun _ => H)

variable {L} {H H' F : Set ρ} {tr : List E.Event} {ev : E.Event} {r : ρ}

theorem held_append (tr tr' : List E.Event) : L.held H (tr ++ tr') = L.held (L.held H tr) tr' :=
  List.foldl_append

theorem held_concat : L.held H (tr ++ [ev]) = L.after (L.held H tr) ev := held_append tr [ev]

theorem after_mono (hH : H ⊆ H') : L.after H ev ⊆ L.after H' ev := by
  rintro r (hr | ⟨hr, hkeep⟩)
  · exact Or.inl hr
  · exact Or.inr ⟨hH hr, hkeep⟩

/-- An event that takes `r`. -/
theorem after_acquire (hacq : L.acquires ev = some r) : L.after H ev ⊆ insert r H := by
  rintro r' (hr | ⟨hr, -⟩)
  · exact Or.inl (Option.some.inj (hr.symm.trans hacq))
  · exact Or.inr hr

/-- An event that takes nothing. -/
theorem after_subset (hacq : L.acquires ev = none) : L.after H ev ⊆ H := by
  rintro r (hr | ⟨hr, -⟩)
  · cases hacq.symm.trans hr
  · exact hr

/-- An event that takes nothing and gives `r` back. -/
theorem after_release (hacq : L.acquires ev = none) (hrel : L.releases ev = some r) :
    L.after (insert r H) ev ⊆ H := by
  rintro r' (hr | ⟨rfl | hr, hkeep⟩)
  · cases hacq.symm.trans hr
  · exact absurd hrel hkeep
  · exact hr

theorem held_mono (hH : H ⊆ H') : L.held H tr ⊆ L.held H' tr := by
  induction tr generalizing H H' with
  | nil => exact hH
  | cons ev tr ih => exact ih (after_mono hH)

/-- More is held at the end only by what was held besides at the start. -/
theorem held_union_subset : L.held (F ∪ H) tr ⊆ F ∪ L.held H tr := by
  induction tr generalizing H with
  | nil => exact subset_rfl
  | cons ev tr ih =>
    have hafter : L.after (F ∪ H) ev ⊆ F ∪ L.after H ev := by
      rintro r (hr | ⟨hr | hr, hkeep⟩)
      · exact Or.inr (Or.inl hr)
      · exact Or.inl hr
      · exact Or.inr (Or.inr ⟨hr, hkeep⟩)
    exact (held_mono hafter).trans ih

/-- A resource that was held and no longer is has been given back. -/
theorem released_of_mem (hH : r ∈ H) (hr : r ∉ L.held H tr) :
    ∃ ev ∈ tr, L.releases ev = some r := by
  induction tr generalizing H with
  | nil => exact absurd hH hr
  | cons ev tr ih =>
    by_cases hrel : L.releases ev = some r
    · exact ⟨ev, List.mem_cons_self, hrel⟩
    · obtain ⟨ev', hev', hrel'⟩ := ih (Or.inr ⟨hH, hrel⟩) hr
      exact ⟨ev', List.mem_cons_of_mem _ hev', hrel'⟩

/-- **A resource that is not held at the end has been given back** since any event
that took it. -/
theorem released_of_acquires {post : List E.Event} (hacq : L.acquires ev = some r)
    (hr : r ∉ L.held H (tr ++ ev :: post)) : ∃ ev' ∈ post, L.releases ev' = some r := by
  rw [held_append] at hr
  exact released_of_mem (H := L.after (L.held H tr) ev) (Or.inl hacq) hr

/-! ## Rules -/

variable {p : Prog E α} {k : α → Prog E β} {K K' : α → Set ρ} {M : β → Set ρ}

/-- **The rule of consequence.** -/
theorem Spec.imp (h : L.Spec H p K) (hH : H' ⊆ H) (hK : ∀ a, K a ⊆ K' a) : L.Spec H' p K' :=
  Prog.All.imp h fun _ a htr => (held_mono hH).trans (htr.trans (hK a))

theorem spec_pure {a : α} (h : H ⊆ K a) : L.Spec H (pure a) K := h

/-- **The rule for an operation.** -/
theorem Spec.call {o : E.Op} {k : E.Ans o → Prog E β}
    (h : ∀ ans, L.Spec (L.after H ⟨o, ans⟩) (k ans) M) : L.Spec H (Prog.perform o >>= k) M := h

/-- **The rule for an acquisition.** -/
theorem Spec.acquire {o : E.Op} {k : E.Ans o → Prog E β} {res : E.Ans o → ρ}
    (ho : ∀ ans, L.acquires ⟨o, ans⟩ = some (res ans))
    (h : ∀ ans, L.Spec (insert (res ans) H) (k ans) M) : L.Spec H (Prog.perform o >>= k) M :=
  fun ans => (h ans).imp (after_acquire (ho ans)) fun _ => subset_rfl

/-- **The rule of composition.** -/
theorem Spec.bind (hp : L.Spec H p K) (hk : ∀ a, L.Spec (K a) (k a) M) :
    L.Spec H (p >>= k) M := by
  unfold Spec
  rw [Prog.all_bind]
  refine Prog.All.imp hp fun tr a htr => Prog.All.imp (hk a) fun tr' b htr' => ?_
  rw [held_append]
  exact (held_mono htr).trans htr'

/-- **The rule of frame.** -/
theorem Spec.frame (h : L.Spec H p K) (F : Set ρ) : L.Spec (F ∪ H) p (fun a => F ∪ K a) :=
  Prog.All.imp h fun _ _ htr => held_union_subset.trans (Set.union_subset_union_right F htr)

/-- A balanced procedure leaves what was held before. -/
theorem Balanced.spec (h : L.Balanced p) (H : Set ρ) : L.Spec H p (fun _ => H) :=
  (Spec.frame h H).imp Set.subset_union_left fun _ => (Set.union_empty H).subset

theorem Balanced.bind (hp : L.Balanced p) (hk : ∀ a, L.Balanced (k a)) : L.Balanced (p >>= k) :=
  Spec.bind hp hk

theorem balanced_pure {a : α} : L.Balanced (pure a : Prog E α) := spec_pure subset_rfl

/-- A procedure that takes nothing. -/
theorem balanced_of_only (h : p.Only (fun ev => L.acquires ev = none)) : L.Balanced p := by
  refine Prog.All.imp h fun tr _ htr => ?_
  induction tr with
  | nil => exact subset_rfl
  | cons ev tr ih =>
    rw [List.forall_mem_cons] at htr
    exact (held_mono (after_subset htr.1)).trans (ih htr.2)

/-- An operation that gives `r` back. -/
theorem releases_perform {o : E.Op}
    (ho : ∀ ans, L.acquires ⟨o, ans⟩ = none ∧ L.releases ⟨o, ans⟩ = some r) :
    L.Releases r (Prog.perform o) :=
  fun _ ans => after_release (ho ans).1 (ho ans).2

/-- **The rule for a deferred release.** -/
theorem Spec.release (hp : L.Spec H p (fun _ => insert r F)) {d : Prog E β}
    (hd : L.Releases r d) : L.Spec H (p >>= fun _ => d) (fun _ => F) :=
  Spec.bind hp fun _ => hd F

/-- **A resource that is held for the time of a balanced procedure.** -/
theorem Balanced.release (hp : L.Balanced p) {d : Prog E β} (hd : L.Releases r d) :
    L.Spec (insert r H) (p >>= fun _ => d) (fun _ => H) :=
  Spec.release (hp.spec (insert r H)) hd

end Ledger
