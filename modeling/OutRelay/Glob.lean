import Mathlib.Data.List.Basic

/-!
# Globs

A glob is a word over an alphabet with one wildcard letter, which stands for
any word, the empty one included; every other letter stands for itself. This
is `Glob.Matches`, one rule per letter of the pattern; put differently, the
words a glob matches are those that come out when each wildcard is replaced by
a word (`matches_iff_fill`).

Matchers do not follow these rules. They split the pattern at the wildcards
and look for the pieces one after the other, each as far left as it occurs.
`matches_iff_spread` says what has to be found: the first piece at the start,
and the others in order, without overlap, the last one at the end
(`Spread`). What makes the leftmost occurrence good enough is that a word in
which pieces can be found still has them when it is extended to the left
(`Spread.append_left`).
-/

namespace Glob

variable {α : Type} {star : α}

/-- **The glob relation.** -/
inductive Matches (star : α) : List α → List α → Prop
  | nil : Matches star [] []
  | lit {c : α} {pattern s : List α} (hc : c ≠ star) (h : Matches star pattern s) :
      Matches star (c :: pattern) (c :: s)
  | wild {pattern s : List α} (w : List α) (h : Matches star pattern s) :
      Matches star (star :: pattern) (w ++ s)

/-- The pieces occur in `s` one after the other, the last one at its end. Without
pieces `s` is empty. -/
def Spread : List (List α) → List α → Prop
  | [], s => s = []
  | p :: ps, s => ∃ w t, s = w ++ (p ++ t) ∧ Spread ps t

/-- **Pieces can be found in a longer word.** -/
theorem Spread.append_left {ps : List (List α)} {s : List α} (h : Spread ps s) (hne : ps ≠ [])
    (v : List α) : Spread ps (v ++ s) := by
  cases ps with
  | nil => exact absurd rfl hne
  | cons p ps =>
    obtain ⟨w, t, rfl, ht⟩ := h
    exact ⟨v ++ w, t, (List.append_assoc v w (p ++ t)).symm, ht⟩

theorem matches_nil_iff {s : List α} : Matches star [] s ↔ s = [] := by
  constructor
  · intro h
    cases h
    rfl
  · rintro rfl
    exact .nil

theorem matches_lit_iff {c : α} {pattern s : List α} (hc : c ≠ star) :
    Matches star (c :: pattern) s ↔ ∃ t, s = c :: t ∧ Matches star pattern t := by
  constructor
  · intro h
    cases h with
    | lit _ h => exact ⟨_, rfl, h⟩
    | wild w h => exact absurd rfl hc
  · rintro ⟨t, rfl, h⟩
    exact .lit hc h

theorem matches_wild_iff {pattern s : List α} :
    Matches star (star :: pattern) s ↔ ∃ w t, s = w ++ t ∧ Matches star pattern t := by
  constructor
  · intro h
    cases h with
    | lit hc h => exact absurd rfl hc
    | wild w h => exact ⟨w, _, rfl, h⟩
  · rintro ⟨w, t, rfl, h⟩
    exact .wild w h

/-- Without a wildcard, a glob matches itself only. -/
theorem matches_of_not_mem {pattern s : List α} (h : star ∉ pattern) :
    Matches star pattern s ↔ pattern = s := by
  induction pattern generalizing s with
  | nil => rw [matches_nil_iff, eq_comm]
  | cons c pattern ih =>
    obtain ⟨hc, hpattern⟩ := not_or.mp (mt List.mem_cons.mpr h)
    rw [matches_lit_iff (Ne.symm hc)]
    constructor
    · rintro ⟨t, rfl, ht⟩
      rw [(ih hpattern).mp ht]
    · rintro rfl
      exact ⟨pattern, rfl, (ih hpattern).mpr rfl⟩

/-- The wildcard alone matches every word. -/
theorem matches_star (s : List α) : Matches star [star] s := by
  have h : Matches star [star] (s ++ []) := .wild s .nil
  rwa [List.append_nil] at h

variable [DecidableEq α]

/-! ## Filling the pattern -/

/-- **The pattern with its wildcards replaced**, from the left, by the words of
`ws`. -/
def fill (star : α) : List α → List (List α) → List α
  | [], _ => []
  | c :: pattern, ws =>
    if c = star then ws.headD [] ++ fill star pattern ws.tail else c :: fill star pattern ws

/-- **What a glob matches are its fillings.** -/
theorem matches_iff_fill (pattern s : List α) :
    Matches star pattern s ↔ ∃ ws, ws.length = pattern.count star ∧ s = fill star pattern ws := by
  induction pattern generalizing s with
  | nil =>
    rw [matches_nil_iff]
    constructor
    · rintro rfl
      exact ⟨[], rfl, rfl⟩
    · rintro ⟨ws, -, rfl⟩
      rfl
  | cons c pattern ih =>
    by_cases hc : c = star
    · subst hc
      rw [matches_wild_iff, List.count_cons_self]
      unfold fill
      simp only [if_true]
      constructor
      · rintro ⟨w, t, rfl, ht⟩
        obtain ⟨ws, hlen, rfl⟩ := (ih t).mp ht
        exact ⟨w :: ws, congrArg (· + 1) hlen, rfl⟩
      · rintro ⟨ws, hlen, rfl⟩
        refine ⟨_, _, rfl, (ih _).mpr ⟨ws.tail, ?_, rfl⟩⟩
        rw [List.length_tail, hlen, Nat.add_sub_cancel]
    · rw [matches_lit_iff hc, List.count_cons_of_ne hc]
      unfold fill
      simp only [if_neg hc]
      constructor
      · rintro ⟨t, rfl, ht⟩
        obtain ⟨ws, hlen, rfl⟩ := (ih t).mp ht
        exact ⟨ws, hlen, rfl⟩
      · rintro ⟨ws, hlen, rfl⟩
        exact ⟨_, rfl, (ih _).mpr ⟨ws, hlen, rfl⟩⟩

/-! ## Splitting the pattern -/

theorem splitOn_wild (pattern : List α) :
    (star :: pattern).splitOn star = [] :: pattern.splitOn star := by
  unfold List.splitOn
  rw [List.splitOnP_cons_eq_if_modifyHead, if_pos (beq_self_eq_true star)]

theorem splitOn_lit {c : α} {pattern first : List α} {rest : List (List α)} (hc : c ≠ star)
    (h : pattern.splitOn star = first :: rest) :
    (c :: pattern).splitOn star = (c :: first) :: rest := by
  unfold List.splitOn at h ⊢
  rw [List.splitOnP_cons_eq_if_modifyHead, if_neg (by simpa using hc), h]
  rfl

/-- A wildcard splits off a piece. -/
theorem rest_ne_nil_of_mem {pattern first : List α} {rest : List (List α)}
    (h : pattern.splitOn star = first :: rest) (hmem : star ∈ pattern) : rest ≠ [] := by
  induction pattern generalizing first with
  | nil => exact absurd hmem List.not_mem_nil
  | cons c pattern ih =>
    cases hp : pattern.splitOn star with
    | nil => exact absurd hp (List.splitOn_ne_nil star pattern)
    | cons first' rest' =>
      by_cases hc : c = star
      · subst hc
        rw [splitOn_wild, hp] at h
        cases h
        exact List.cons_ne_nil first' rest'
      · rw [splitOn_lit hc hp] at h
        cases h
        exact ih hp ((List.mem_cons.mp hmem).resolve_left (Ne.symm hc))

/-- **What has to be found**: the first piece at the start of the word, and the
others in what follows it. -/
theorem matches_iff_spread {pattern first : List α} {rest : List (List α)}
    (h : pattern.splitOn star = first :: rest) (s : List α) :
    Matches star pattern s ↔ ∃ t, s = first ++ t ∧ Spread rest t := by
  induction pattern generalizing first rest s with
  | nil =>
    rw [List.splitOn_nil] at h
    cases h
    rw [matches_nil_iff]
    constructor
    · rintro rfl
      exact ⟨[], rfl, rfl⟩
    · rintro ⟨t, rfl, rfl⟩
      rfl
  | cons c pattern ih =>
    cases hp : pattern.splitOn star with
    | nil => exact absurd hp (List.splitOn_ne_nil star pattern)
    | cons first' rest' =>
      by_cases hc : c = star
      · -- the pieces of what follows the wildcard have to be found anywhere
        subst hc
        rw [splitOn_wild, hp] at h
        cases h
        rw [matches_wild_iff]
        constructor
        · rintro ⟨w, t, rfl, ht⟩
          obtain ⟨u, rfl, hu⟩ := (ih hp t).mp ht
          exact ⟨_, rfl, w, u, rfl, hu⟩
        · rintro ⟨t, rfl, w, u, rfl, hu⟩
          exact ⟨w, first' ++ u, rfl, (ih hp _).mpr ⟨u, rfl, hu⟩⟩
      · rw [splitOn_lit hc hp] at h
        cases h
        rw [matches_lit_iff hc]
        constructor
        · rintro ⟨t, rfl, ht⟩
          obtain ⟨u, rfl, hu⟩ := (ih hp t).mp ht
          exact ⟨u, rfl, hu⟩
        · rintro ⟨u, rfl, hu⟩
          exact ⟨first' ++ u, rfl, (ih hp _).mpr ⟨u, rfl, hu⟩⟩

end Glob
