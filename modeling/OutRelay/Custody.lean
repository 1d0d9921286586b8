import Mathlib.Data.List.Basic

/-!
# Things in one place each

A program that hands resources around – a connection from the goroutine that
dialed it to a cache, from the cache to whoever is to close it – leaks one when
it is nowhere, and uses one twice when it is in two places. The property that
excludes both is **custody**: each thing is in exactly one place.

Custody survives a step that moves things by a rule on the places alone. If
what was at `p` is afterwards at `f p`, and nothing else is anywhere, each
thing is again in one place (`Custody.relocate`), be it one thing that moves or
all the things of many places at once. A thing that comes into being enters at
one place (`Custody.add`).
-/

/-- **Each thing is in exactly one place**, and only things are. -/
structure Custody {τ π : Type} (exists_ : τ → Prop) (lies : τ → π → Prop) : Prop where
  total : ∀ c, exists_ c → ∃ p, lies c p
  valid : ∀ c p, lies c p → exists_ c
  unique : ∀ c p q, lies c p → lies c q → p = q

namespace Custody

variable {τ π : Type} {exists_ exists' : τ → Prop} {lies lies' : τ → π → Prop}

/-- **The rule for a move**: what was at `p` is now at `f p`. -/
theorem relocate (h : Custody exists_ lies) (f : π → π)
    (hmove : ∀ c q, lies' c q ↔ ∃ p, lies c p ∧ f p = q) : Custody exists_ lies' where
  total c hc := by
    obtain ⟨p, hp⟩ := h.total c hc
    exact ⟨f p, (hmove c (f p)).mpr ⟨p, hp, rfl⟩⟩
  valid c q hq := by
    obtain ⟨p, hp, -⟩ := (hmove c q).mp hq
    exact h.valid c p hp
  unique c q r hq hr := by
    obtain ⟨p, hp, rfl⟩ := (hmove c q).mp hq
    obtain ⟨p', hp', rfl⟩ := (hmove c r).mp hr
    rw [h.unique c p p' hp hp']

/-- Nothing moves. -/
theorem congr (h : Custody exists_ lies) (hsame : ∀ c p, lies' c p ↔ lies c p) :
    Custody exists_ lies' :=
  h.relocate (fun p => p) fun c q => (hsame c q).trans
    ⟨fun hq => ⟨q, hq, rfl⟩, fun ⟨_, hp, hpq⟩ => hpq ▸ hp⟩

/-- What was at `p` moves to `q`, and the rest stays. -/
theorem move [DecidableEq π] (h : Custody exists_ lies) {p q : π}
    (hmove : ∀ c r, lies' c r ↔ (r = q ∧ lies c p) ∨ (r ≠ p ∧ lies c r)) :
    Custody exists_ lies' := by
  refine h.relocate (fun r => if r = p then q else r) fun c r => (hmove c r).trans ?_
  constructor
  · rintro (⟨rfl, hp⟩ | ⟨hne, hr⟩)
    · exact ⟨p, hp, if_pos rfl⟩
    · exact ⟨r, hr, if_neg hne⟩
  · rintro ⟨r', hr', heq⟩
    split_ifs at heq with hp
    · exact Or.inl ⟨heq.symm, hp ▸ hr'⟩
    · subst heq
      exact Or.inr ⟨hp, hr'⟩

/-- **The rule for a new thing.** -/
theorem add (h : Custody exists_ lies) (c₀ : τ) (p₀ : π) (hnew : ¬ exists_ c₀)
    (hexists : ∀ c, exists' c ↔ exists_ c ∨ c = c₀)
    (hlies : ∀ c p, lies' c p ↔ lies c p ∨ (c = c₀ ∧ p = p₀)) : Custody exists' lies' where
  total c hc := by
    rcases (hexists c).mp hc with hc | rfl
    · obtain ⟨p, hp⟩ := h.total c hc
      exact ⟨p, (hlies c p).mpr (Or.inl hp)⟩
    · exact ⟨p₀, (hlies c p₀).mpr (Or.inr ⟨rfl, rfl⟩)⟩
  valid c p hp := by
    refine (hexists c).mpr ?_
    rcases (hlies c p).mp hp with hp | ⟨rfl, -⟩
    · exact Or.inl (h.valid c p hp)
    · exact Or.inr rfl
  unique c p q hp hq := by
    rcases (hlies c p).mp hp with hp | ⟨hc, rfl⟩
    · rcases (hlies c q).mp hq with hq | ⟨rfl, -⟩
      · exact h.unique c p q hp hq
      · exact absurd (h.valid c p hp) hnew
    · rcases (hlies c q).mp hq with hq | ⟨-, rfl⟩
      · exact absurd (h.valid c q hq) (hc ▸ hnew)
      · rfl

end Custody
