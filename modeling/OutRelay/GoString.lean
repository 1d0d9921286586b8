import Mathlib.Data.List.Basic

/-!
# Go strings

A Go `string` is a sequence of bytes. Nothing in it has to be UTF-8, and
every operation of package `strings` used here – `HasPrefix`, `HasSuffix`,
`Index`, `Split` on a one-byte separator – compares bytes.
-/

/-- **A Go string**: a sequence of bytes. -/
abbrev GoString := List UInt8

/-- The bytes of a literal. -/
def go (s : String) : GoString := s.toUTF8.data.toList

namespace GoString

/-- `strings.HasPrefix(s, p)`. -/
def hasPrefix (s p : GoString) : Bool := p.isPrefixOf s

/-- `strings.HasSuffix(s, p)`. -/
def hasSuffix (s p : GoString) : Bool := p.isSuffixOf s

/-- `strings.Index(s, p)`: the first position at which `p` occurs in `s`, and
`none` for Go's `-1`. -/
def index (s p : GoString) : Option ℕ :=
  if hasPrefix s p then some 0
  else match s with
    | [] => none
    | _ :: s => (index s p).map (· + 1)

/-- `strings.Split(s, sep)` for a one-byte separator: the pieces between the
separators, always at least one. -/
def split (s : GoString) (sep : UInt8) : List GoString := s.splitOn sep

theorem hasPrefix_iff {s p : GoString} : s.hasPrefix p = true ↔ ∃ t, s = p ++ t := by
  unfold hasPrefix
  rw [List.isPrefixOf_iff_prefix]
  exact exists_congr fun _ => eq_comm

theorem hasSuffix_iff {s p : GoString} : s.hasSuffix p = true ↔ ∃ w, s = w ++ p := by
  unfold hasSuffix
  rw [List.isSuffixOf_iff_suffix]
  exact exists_congr fun _ => eq_comm

/-- `Index` finds the leftmost occurrence. -/
theorem of_index_eq_some {s p : GoString} {i : ℕ} (h : s.index p = some i) :
    ∃ w t, s = w ++ (p ++ t) ∧ w.length = i ∧ ∀ w' t', s = w' ++ (p ++ t') → i ≤ w'.length := by
  induction s generalizing i with
  | nil =>
    unfold index at h
    split_ifs at h with hp
    cases h
    obtain ⟨t, ht⟩ := hasPrefix_iff.mp hp
    exact ⟨[], t, ht, rfl, fun _ _ _ => Nat.zero_le _⟩
  | cons c s ih =>
    unfold index at h
    split_ifs at h with hp
    · cases h
      obtain ⟨t, ht⟩ := hasPrefix_iff.mp hp
      exact ⟨[], t, ht, rfl, fun _ _ _ => Nat.zero_le _⟩
    · obtain ⟨j, hj, rfl⟩ := Option.map_eq_some_iff.mp h
      obtain ⟨w, t, rfl, hw, hleft⟩ := ih hj
      refine ⟨c :: w, t, rfl, congrArg (· + 1) hw, fun w' t' heq => ?_⟩
      cases w' with
      | nil => exact absurd (hasPrefix_iff.mpr ⟨t', heq⟩) hp
      | cons d w' => exact Nat.succ_le_succ (hleft w' t' (List.cons.inj heq).2)

theorem of_index_eq_none {s p : GoString} (h : s.index p = none) (w t : GoString) :
    s ≠ w ++ (p ++ t) := by
  induction s generalizing w with
  | nil =>
    unfold index at h
    split_ifs at h with hp
    intro heq
    obtain ⟨rfl, hpt⟩ := List.append_eq_nil_iff.mp heq.symm
    exact hp (hasPrefix_iff.mpr ⟨t, hpt.symm⟩)
  | cons c s ih =>
    unfold index at h
    split_ifs at h with hp
    intro heq
    cases w with
    | nil => exact hp (hasPrefix_iff.mpr ⟨t, heq⟩)
    | cons d w => exact ih (Option.map_eq_none_iff.mp h) w (List.cons.inj heq).2

end GoString
