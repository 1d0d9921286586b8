import Mathlib.Data.List.Basic
import Mathlib.Data.List.Perm.Basic

/-!
# First match in tiers

A rule base that is searched in two tiers returns the first entry of the
first tier that matches, and only where there is none the first one of the
second tier. Which entry that is depends on the order of the base. This
module says when it does not.

The entries that can win are the matching ones of the tier that decides
(`deciding`). Every one of them is the first in some order, and no other
entry ever is; so an observation of the winner is the same in every order
exactly when it is the same on all of them (`forall_perm_firstMatch_iff`).
-/

namespace FirstMatch

variable {α β : Type} {P Q : α → Bool} {l l' : List α} {x : α}

/-- **The first entry of tier `P`, or else the first one of tier `Q`.** -/
def firstMatch (P Q : α → Bool) (l : List α) : Option α :=
  (l.find? P).or (l.find? Q)

/-- **The entries of the tier that decides.** -/
def deciding (P Q : α → Bool) (l : List α) : List α :=
  if l.any P then l.filter P else l.filter Q

theorem firstMatch_eq_head? (P Q : α → Bool) (l : List α) :
    firstMatch P Q l = (deciding P Q l).head? := by
  unfold firstMatch deciding
  by_cases h : l.any P = true
  · obtain ⟨x, hx⟩ := Option.isSome_iff_exists.mp (List.find?_isSome.mpr (List.any_eq_true.mp h))
    rw [if_pos h, hx, Option.some_or, List.head?_filter, hx]
  · have hnone : l.find? P = none := by
      rw [List.find?_eq_none]
      exact fun y hy hP => h (List.any_eq_true.mpr ⟨y, hy, hP⟩)
    rw [if_neg h, hnone, Option.none_or, List.head?_filter]

/-- Another order of the entries is another order of the deciding ones. -/
theorem deciding_perm (h : l'.Perm l) : (deciding P Q l').Perm (deciding P Q l) := by
  have hany : l'.any P = l.any P := by
    rw [Bool.eq_iff_iff, List.any_eq_true, List.any_eq_true]
    exact ⟨fun ⟨x, hx, hP⟩ => ⟨x, h.mem_iff.mp hx, hP⟩,
      fun ⟨x, hx, hP⟩ => ⟨x, h.mem_iff.mpr hx, hP⟩⟩
  unfold deciding
  rw [hany]
  split_ifs
  · exact h.filter P
  · exact h.filter Q

theorem mem_of_mem_deciding (hx : x ∈ deciding P Q l) : x ∈ l := by
  unfold deciding at hx
  split_ifs at hx
  · exact List.mem_of_mem_filter hx
  · exact List.mem_of_mem_filter hx

/-- **Every deciding entry wins in some order**: the one that starts with
it. -/
theorem exists_perm_firstMatch (hx : x ∈ deciding P Q l) :
    ∃ l', l'.Perm l ∧ firstMatch P Q l' = some x := by
  obtain ⟨a, b, rfl⟩ := List.append_of_mem (mem_of_mem_deciding hx)
  have hperm : (x :: (a ++ b)).Perm (a ++ x :: b) := List.perm_middle.symm
  refine ⟨x :: (a ++ b), hperm, ?_⟩
  have hany : (x :: (a ++ b)).any P = (a ++ x :: b).any P := by
    simp only [List.any_cons, List.any_append]
    cases P x <;> cases a.any P <;> rfl
  unfold deciding at hx
  rw [firstMatch_eq_head?, deciding, hany]
  split_ifs at hx ⊢
  · rw [List.filter_cons_of_pos (List.of_mem_filter hx), List.head?_cons]
  · rw [List.filter_cons_of_pos (List.of_mem_filter hx), List.head?_cons]

/-- **When the order does not matter.** An observation `f` of the first match
is the same in every order of the entries exactly when it does not tell the
deciding entries apart. -/
theorem forall_perm_firstMatch_iff (f : Option α → β) (l : List α) :
    (∀ l' : List α, l'.Perm l → f (firstMatch P Q l') = f (firstMatch P Q l))
      ↔ ∀ x ∈ deciding P Q l, ∀ y ∈ deciding P Q l, f (some x) = f (some y) := by
  constructor
  · intro h
    have hone : ∀ x ∈ deciding P Q l, f (some x) = f (firstMatch P Q l) := by
      intro x hx
      obtain ⟨l', hperm, hfirst⟩ := exists_perm_firstMatch hx
      rw [← hfirst]
      exact h l' hperm
    exact fun x hx y hy => (hone x hx).trans (hone y hy).symm
  · intro h l' hperm
    have hd := deciding_perm (P := P) (Q := Q) hperm
    rw [firstMatch_eq_head?, firstMatch_eq_head?]
    cases hl : deciding P Q l with
    | nil =>
      rw [hl] at hd
      rw [hd.eq_nil]
    | cons y ys =>
      cases hl' : deciding P Q l' with
      | nil =>
        rw [hl, hl'] at hd
        exact absurd hd.symm.eq_nil (List.cons_ne_nil y ys)
      | cons x xs =>
        refine h x (hd.mem_iff.mp ?_) y ?_
        · rw [hl']
          exact List.mem_cons_self
        · rw [hl]
          exact List.mem_cons_self

end FirstMatch
