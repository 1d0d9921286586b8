import Mathlib.Data.Finmap

/-!
# Go maps

A Go `map[K]V` is a finite partial function with three operations – index,
assign, `delete` – and one loop, `for k, v := range m`, whose order the
language leaves open. The first three are Mathlib's `Finmap`; the loop is
what this module adds.

`RangeOrder m l` says that `l` lists the entries of `m` once each, so it is
one of the orders a `range` loop may take. A loop is then a fold over such a
list, and a statement about the loop quantifies over `l`: what it proves
holds whichever order the runtime picks.

`delAll` is the loop that only deletes. Its result is read key by key
(`get_delAll`), which is why it does not depend on the order. `setAll` is the
loop that fills a map from a list: it forgets the order of the list, and a
`range` over its result may take any (`rangeOrder_setAll_iff`).
-/

/-- **A Go map** from `κ` to `ν`. -/
def GoMap (κ ν : Type) : Type := Finmap (fun _ : κ => ν)

namespace GoMap

variable {κ ν : Type} [DecidableEq κ]

instance : EmptyCollection (GoMap κ ν) :=
  inferInstanceAs (EmptyCollection (Finmap (fun _ : κ => ν)))

instance [DecidableEq ν] : DecidableEq (GoMap κ ν) :=
  inferInstanceAs (DecidableEq (Finmap (fun _ : κ => ν)))

/-- `v, ok := m[k]`: the value at `k`, if there is one. -/
def get (m : GoMap κ ν) (k : κ) : Option ν := Finmap.lookup k m

/-- `m[k] = v`. -/
def set (m : GoMap κ ν) (k : κ) (v : ν) : GoMap κ ν := Finmap.insert k v m

/-- `delete(m, k)`. -/
def del (m : GoMap κ ν) (k : κ) : GoMap κ ν := Finmap.erase k m

@[simp] theorem get_empty (k : κ) : (∅ : GoMap κ ν).get k = none :=
  Finmap.lookup_empty k

@[simp] theorem get_set_self (m : GoMap κ ν) (k : κ) (v : ν) :
    (m.set k v).get k = some v :=
  Finmap.lookup_insert m

theorem get_set_of_ne (m : GoMap κ ν) {k k' : κ} (v : ν) (h : k' ≠ k) :
    (m.set k v).get k' = m.get k' :=
  Finmap.lookup_insert_of_ne m h

@[simp] theorem get_del_self (m : GoMap κ ν) (k : κ) : (m.del k).get k = none :=
  Finmap.lookup_erase k m

theorem get_del_of_ne (m : GoMap κ ν) {k k' : κ} (h : k' ≠ k) :
    (m.del k).get k' = m.get k' :=
  Finmap.lookup_erase_ne h

/-- An assignment, read at any key. -/
@[grind =] theorem get_set (m : GoMap κ ν) (k k' : κ) (v : ν) :
    (m.set k v).get k' = if k' = k then some v else m.get k' := by
  by_cases h : k' = k
  · rw [if_pos h, h, get_set_self]
  · rw [if_neg h, get_set_of_ne m v h]

/-- A deletion, read at any key. -/
@[grind =] theorem get_del (m : GoMap κ ν) (k k' : κ) :
    (m.del k).get k' = if k' = k then none else m.get k' := by
  by_cases h : k' = k
  · rw [if_pos h, h, get_del_self]
  · rw [if_neg h, get_del_of_ne m h]

/-- A row that survives a deletion was there, under another key. -/
theorem of_get_del {m : GoMap κ ν} {k k' : κ} {v : ν}
    (h : (m.del k).get k' = some v) : m.get k' = some v ∧ k' ≠ k := by
  rw [get_del] at h
  split_ifs at h with hk
  exact ⟨h, hk⟩

/-- **Maps with the same values are the same map.** -/
theorem ext_get {m n : GoMap κ ν} (h : ∀ k, m.get k = n.get k) : m = n :=
  Finmap.ext_lookup h

/-- A deletion that finds nothing changes nothing. -/
theorem del_of_get_none {m : GoMap κ ν} {k : κ} (h : m.get k = none) :
    m.del k = m := by
  refine ext_get (fun k' => ?_)
  rw [get_del]
  split_ifs with hk
  · rw [hk, h]
  · rfl

/-- Deletions commute. -/
theorem del_comm (m : GoMap κ ν) (k k' : κ) : (m.del k).del k' = (m.del k').del k := by
  refine ext_get (fun j => ?_)
  simp only [get_del]
  split_ifs <;> rfl

/-! ## Ranging over a map -/

/-- **`l` is an order in which a `range` loop may visit `m`**: it lists the
entries of `m`, each once. -/
def RangeOrder (m : GoMap κ ν) (l : List (κ × ν)) : Prop :=
  ((l.map (fun e => (⟨e.fst, e.snd⟩ : Σ _ : κ, ν)) : List (Σ _ : κ, ν))
    : Multiset (Σ _ : κ, ν)) = Finmap.entries m

instance [DecidableEq ν] (m : GoMap κ ν) (l : List (κ × ν)) :
    Decidable (m.RangeOrder l) :=
  inferInstanceAs (Decidable (_ = _))

omit [DecidableEq κ] in
/-- Every map can be ranged over. -/
theorem exists_rangeOrder (m : GoMap κ ν) : ∃ l, m.RangeOrder l := by
  obtain ⟨l, hl⟩ := Quot.exists_rep (Finmap.entries m)
  refine ⟨l.map (fun e => (e.fst, e.snd)), ?_⟩
  rw [RangeOrder, List.map_map, ← hl]
  exact congrArg (fun x : List (Σ _ : κ, ν) => (x : Multiset (Σ _ : κ, ν)))
    (List.map_id l)

/-- A `range` loop visits exactly the entries of the map. -/
theorem RangeOrder.mem_iff {m : GoMap κ ν} {l : List (κ × ν)}
    (h : m.RangeOrder l) (k : κ) (v : ν) : (k, v) ∈ l ↔ m.get k = some v := by
  have hmem : (⟨k, v⟩ : Σ _ : κ, ν) ∈ Finmap.entries m ↔ m.get k = some v :=
    Finmap.mem_lookup_iff.symm
  rw [← hmem, ← h, Multiset.mem_coe, List.mem_map]
  constructor
  · exact fun hkv => ⟨(k, v), hkv, rfl⟩
  · rintro ⟨⟨k', v'⟩, hkv, heq⟩
    cases heq
    exact hkv

omit [DecidableEq κ] in
/-- A `range` loop visits no key twice. -/
theorem RangeOrder.nodup {m : GoMap κ ν} {l : List (κ × ν)}
    (h : m.RangeOrder l) : (l.map Prod.fst).Nodup := by
  have hnd : (Finmap.entries m).NodupKeys := Finmap.nodupKeys m
  rw [← h] at hnd
  have hl : (l.map (fun e => (⟨e.fst, e.snd⟩ : Σ _ : κ, ν))).NodupKeys := hnd
  rw [List.NodupKeys, List.keys, List.map_map] at hl
  exact hl

/-- **A list that has the entries of the map, and no key twice, is an order of
it.** -/
theorem rangeOrder_iff {m : GoMap κ ν} {l : List (κ × ν)} :
    m.RangeOrder l ↔ (l.map Prod.fst).Nodup ∧ ∀ k v, (k, v) ∈ l ↔ m.get k = some v := by
  refine ⟨fun h => ⟨h.nodup, h.mem_iff⟩, fun ⟨hnd, hmem⟩ => ?_⟩
  have hl : (l.map (fun e => (⟨e.fst, e.snd⟩ : Σ _ : κ, ν))).Nodup := by
    refine List.Nodup.of_map Sigma.fst ?_
    rw [List.map_map]
    exact hnd
  refine (Multiset.Nodup.ext (Multiset.coe_nodup.mpr hl) (Finmap.nodupKeys m).nodup).mpr ?_
  rintro ⟨k, v⟩
  have hentry : (⟨k, v⟩ : Σ _ : κ, ν) ∈ Finmap.entries m ↔ m.get k = some v :=
    Finmap.mem_lookup_iff.symm
  rw [Multiset.mem_coe, List.mem_map]
  refine Iff.trans ⟨?_, fun h => ⟨(k, v), h, rfl⟩⟩ ((hmem k v).trans hentry.symm)
  rintro ⟨⟨k', v'⟩, h, heq⟩
  cases heq
  exact h

/-- Two orders of one map list the same entries. -/
theorem RangeOrder.perm {m : GoMap κ ν} {l l' : List (κ × ν)} (h : m.RangeOrder l)
    (h' : m.RangeOrder l') : l.Perm l' := by
  refine (List.perm_ext_iff_of_nodup h.nodup.of_map h'.nodup.of_map).mpr ?_
  rintro ⟨k, v⟩
  rw [h.mem_iff, h'.mem_iff]

/-! ## Loops that only delete -/

/-- **A loop that clears what it meets.** If a round sets a reading to `gone` when its
element is a `hit`, and keeps it otherwise, the loop sets it to `gone` when there is
a hit in the list. -/
theorem foldl_clears {σ ε β : Type} {f : σ → ε → σ} (read : σ → β) {gone : β} {hit : ε → Prop}
    [DecidablePred hit] (hround : ∀ s e, read (f s e) = if hit e then gone else read s)
    (l : List ε) (s : σ) :
    read (l.foldl f s) = if ∃ e ∈ l, hit e then gone else read s := by
  induction l generalizing s with
  | nil => simp
  | cons e l ih =>
    rw [List.foldl_cons, ih, hround]
    simp only [List.exists_mem_cons_iff]
    by_cases he : hit e
    · rw [if_pos he, ite_self, if_pos (Or.inl he)]
    · simp only [he, if_false, false_or]

/-- Delete every key of a list, in order. -/
def delAll (m : GoMap κ ν) (ks : List κ) : GoMap κ ν := ks.foldl del m

/-- **A deleting loop, read key by key.** -/
theorem get_delAll (m : GoMap κ ν) (ks : List κ) (k : κ) :
    (m.delAll ks).get k = if k ∈ ks then none else m.get k := by
  induction ks generalizing m with
  | nil => simp [delAll]
  | cons k₀ ks ih =>
    show ((m.del k₀).delAll ks).get k = _
    rw [ih, get_del]
    by_cases h : k ∈ ks
    · simp [h]
    · by_cases h₀ : k = k₀ <;> simp [h, h₀]

/-- A row that survives a deleting loop was there, under another key. -/
theorem of_get_delAll {m : GoMap κ ν} {ks : List κ} {k : κ} {v : ν}
    (h : (m.delAll ks).get k = some v) : m.get k = some v ∧ k ∉ ks := by
  rw [get_delAll] at h
  split_ifs at h with hk
  exact ⟨h, hk⟩

/-- A loop that deletes the key it is at leaves nothing. -/
theorem delAll_rangeOrder {m : GoMap κ ν} {l : List (κ × ν)} (h : m.RangeOrder l) :
    m.delAll (l.map Prod.fst) = ∅ := by
  refine ext_get (fun k => ?_)
  rw [get_delAll, get_empty]
  split_ifs with hk
  · rfl
  · refine Option.eq_none_iff_forall_ne_some.mpr (fun v hv => hk ?_)
    exact List.mem_map.mpr ⟨(k, v), (h.mem_iff k v).mpr hv, rfl⟩

/-- **A loop that deletes the values it tests for**, read key by key. -/
theorem RangeOrder.get_delAll_filter {m : GoMap κ ν} {l : List (κ × ν)} (h : m.RangeOrder l)
    (p : ν → Bool) (k : κ) :
    (m.delAll ((l.filter (fun e => p e.snd)).map Prod.fst)).get k
      = (m.get k).filter (fun v => !p v) := by
  have hmem : k ∈ (l.filter (fun e => p e.snd)).map Prod.fst ↔ ∃ v, m.get k = some v ∧ p v := by
    simp only [List.mem_map, List.mem_filter]
    constructor
    · rintro ⟨⟨k', v⟩, ⟨hv, hp⟩, rfl⟩
      exact ⟨v, (h.mem_iff k' v).mp hv, hp⟩
    · rintro ⟨v, hv, hp⟩
      exact ⟨(k, v), ⟨(h.mem_iff k v).mpr hv, hp⟩, rfl⟩
  rw [get_delAll, if_congr hmem rfl rfl]
  cases m.get k with
  | none => simp
  | some v => cases hp : p v <;> simp [hp, Option.filter]

/-! ## Loops that only assign -/

/-- Assign every value of a list at its key, in order. -/
def setAll (key : ν → κ) (m : GoMap κ ν) (vs : List ν) : GoMap κ ν :=
  vs.foldl (fun m v => m.set (key v) v) m

/-- An assigning loop over distinct keys, read key by key. -/
theorem get_setAll_iff {key : ν → κ} {vs : List ν} (hnd : (vs.map key).Nodup)
    (m : GoMap κ ν) (hm : ∀ v ∈ vs, m.get (key v) = none) (k : κ) (v : ν) :
    (m.setAll key vs).get k = some v ↔ (v ∈ vs ∧ key v = k) ∨ m.get k = some v := by
  induction vs generalizing m with
  | nil => simp [setAll]
  | cons v₀ vs ih =>
    obtain ⟨hnotin, hnd⟩ := List.nodup_cons.mp hnd
    have hne : ∀ w ∈ vs, key w ≠ key v₀ := fun w hw h => hnotin (h ▸ List.mem_map_of_mem hw)
    show ((m.set (key v₀) v₀).setAll key vs).get k = some v ↔ _
    rw [ih hnd _ (fun w hw => ?_), get_set]
    · by_cases hk : k = key v₀
      · have hnone := hm v₀ List.mem_cons_self
        subst hk
        simp only [if_true, Option.some.injEq, List.mem_cons, hnone, reduceCtorEq, or_false]
        constructor
        · rintro (⟨hv, heq⟩ | rfl)
          · exact ⟨Or.inr hv, heq⟩
          · exact ⟨Or.inl rfl, rfl⟩
        · rintro ⟨rfl | hv, heq⟩
          · exact Or.inr rfl
          · exact absurd heq (hne v hv)
      · rw [if_neg hk, List.mem_cons]
        constructor
        · rintro (⟨hv, heq⟩ | hget)
          · exact Or.inl ⟨Or.inr hv, heq⟩
          · exact Or.inr hget
        · rintro (⟨rfl | hv, heq⟩ | hget)
          · exact absurd heq.symm hk
          · exact Or.inl ⟨hv, heq⟩
          · exact Or.inr hget
    · rw [get_set_of_ne _ _ (hne w hw)]
      exact hm w (List.mem_cons_of_mem _ hw)

/-- **The orders of a map filled from a list are the orders of the list.** -/
theorem rangeOrder_setAll_iff {key : ν → κ} {vs : List ν} (hnd : (vs.map key).Nodup)
    {l : List (κ × ν)} :
    ((∅ : GoMap κ ν).setAll key vs).RangeOrder l ↔ l.Perm (vs.map (fun v => (key v, v))) := by
  have hget : ∀ k v, ((∅ : GoMap κ ν).setAll key vs).get k = some v
      ↔ (k, v) ∈ vs.map (fun v => (key v, v)) := by
    intro k v
    rw [get_setAll_iff hnd ∅ (fun w _ => get_empty (key w)), get_empty, List.mem_map]
    constructor
    · rintro (⟨hv, rfl⟩ | h)
      · exact ⟨v, hv, rfl⟩
      · cases h
    · rintro ⟨w, hw, heq⟩
      cases heq
      exact Or.inl ⟨hw, rfl⟩
  have hkeys : (vs.map (fun v => (key v, v))).map Prod.fst = vs.map key := by
    rw [List.map_map]
    rfl
  rw [rangeOrder_iff]
  constructor
  · rintro ⟨hl, hmem⟩
    refine (List.perm_ext_iff_of_nodup hl.of_map (List.Nodup.of_map Prod.fst (hkeys ▸ hnd))).mpr ?_
    rintro ⟨k, v⟩
    rw [hmem, hget]
  · intro hperm
    refine ⟨((hperm.map Prod.fst).nodup_iff).mpr (hkeys ▸ hnd), fun k v => ?_⟩
    rw [hget, hperm.mem_iff]

/-! ## The number of entries -/

/-- `len(m)`. -/
def len (m : GoMap κ ν) : ℕ := Multiset.card (Finmap.entries m)

omit [DecidableEq κ] in
theorem RangeOrder.length_eq {m : GoMap κ ν} {l : List (κ × ν)} (h : m.RangeOrder l) :
    l.length = m.len := by
  unfold len
  rw [← h, Multiset.coe_card, List.length_map]

/-- A map with fewer keys has fewer entries. -/
theorem len_le_of_keys {ν' : Type} {m : GoMap κ ν} {n : GoMap κ ν'}
    (h : ∀ k v, m.get k = some v → ∃ v', n.get k = some v') : m.len ≤ n.len := by
  obtain ⟨l, hl⟩ := m.exists_rangeOrder
  obtain ⟨l', hl'⟩ := n.exists_rangeOrder
  have hsub : l.map Prod.fst ⊆ l'.map Prod.fst := by
    intro k hk
    obtain ⟨⟨k', v⟩, hv, rfl⟩ := List.mem_map.mp hk
    obtain ⟨v', hv'⟩ := h k' v ((hl.mem_iff k' v).mp hv)
    exact List.mem_map_of_mem ((hl'.mem_iff k' v').mpr hv')
  rw [← hl.length_eq, ← hl'.length_eq, ← List.length_map Prod.fst, ← List.length_map Prod.fst]
  exact (List.subperm_of_subset hl.nodup hsub).length_le

/-- A map has no more entries than a list that its keys are in. -/
theorem len_le_length {m : GoMap κ ν} {ks : List κ} (h : ∀ k v, m.get k = some v → k ∈ ks) :
    m.len ≤ ks.length := by
  obtain ⟨l, hl⟩ := m.exists_rangeOrder
  have hsub : l.map Prod.fst ⊆ ks := by
    intro k hk
    obtain ⟨⟨k', v⟩, hv, rfl⟩ := List.mem_map.mp hk
    exact h k' v ((hl.mem_iff k' v).mp hv)
  rw [← hl.length_eq, ← List.length_map Prod.fst]
  exact (List.subperm_of_subset hl.nodup hsub).length_le

/-- What a deleting loop leaves, in the order the map had. -/
theorem RangeOrder.delAll {m : GoMap κ ν} {l : List (κ × ν)} (h : m.RangeOrder l) (ks : List κ) :
    (m.delAll ks).RangeOrder (l.filter (fun e => e.fst ∉ ks)) := by
  refine rangeOrder_iff.mpr ⟨h.nodup.sublist (List.filter_sublist.map _), fun k v => ?_⟩
  rw [List.mem_filter, h.mem_iff, get_delAll, decide_eq_true_iff]
  by_cases hk : k ∈ ks <;> simp [hk]

theorem len_delAll_le (m : GoMap κ ν) (ks : List κ) : (m.delAll ks).len ≤ m.len := by
  obtain ⟨l, hl⟩ := exists_rangeOrder m
  rw [← hl.length_eq, ← (hl.delAll ks).length_eq]
  exact List.length_filter_le _ _

theorem len_set_le (m : GoMap κ ν) (k : κ) (v : ν) : (m.set k v).len ≤ m.len + 1 := by
  obtain ⟨l, hl⟩ := exists_rangeOrder m
  have horder : (m.set k v).RangeOrder ((k, v) :: l.filter (fun e => e.fst ∉ [k])) := by
    refine rangeOrder_iff.mpr ⟨?_, fun k' v' => ?_⟩
    · rw [List.map_cons, List.nodup_cons]
      refine ⟨?_, (hl.delAll [k]).nodup⟩
      simp
    · rw [List.mem_cons, List.mem_filter, hl.mem_iff, get_set]
      by_cases hk : k' = k
      · simp [hk, eq_comm]
      · simp [hk]
  rw [← hl.length_eq, ← horder.length_eq, List.length_cons]
  exact Nat.succ_le_succ (List.length_filter_le _ _)

/-- **A loop that deletes and stops after `n` rounds** leaves the rest. -/
theorem RangeOrder.len_delAll_take {m : GoMap κ ν} {l : List (κ × ν)} (h : m.RangeOrder l)
    (n : ℕ) : (m.delAll ((l.take n).map Prod.fst)).len = m.len - n := by
  have hsplit : l.map Prod.fst = (l.take n).map Prod.fst ++ (l.drop n).map Prod.fst := by
    rw [← List.map_append, List.take_append_drop]
  have hdisj := List.disjoint_of_nodup_append (hsplit ▸ h.nodup)
  have hrest : l.filter (fun e => e.fst ∉ (l.take n).map Prod.fst) = l.drop n := by
    conv_lhs => rw [← List.take_append_drop n l]
    rw [List.filter_append, List.take_append_drop]
    have htake : (l.take n).filter (fun e => e.fst ∉ (l.take n).map Prod.fst) = [] := by
      refine List.filter_eq_nil_iff.mpr (fun e he => ?_)
      rw [decide_eq_true_iff, not_not]
      exact List.mem_map_of_mem he
    have hdrop : (l.drop n).filter (fun e => e.fst ∉ (l.take n).map Prod.fst) = l.drop n := by
      refine List.filter_eq_self.mpr (fun e he => decide_eq_true (fun hmem => ?_))
      exact hdisj hmem (List.mem_map_of_mem he)
    rw [htake, hdrop, List.nil_append]
  rw [← (h.delAll _).length_eq, hrest, List.length_drop, h.length_eq]

end GoMap
