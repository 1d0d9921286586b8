import Mathlib.Logic.Function.Basic
import OutRelay.GoMap

/-!
# Rendezvous

Parties that do not know of each other meet under a key. The first to come is
entered in a table of waiting parties; the second takes it out, and the two
are a pair; one that waits too long is taken out and has expired. What a party
and its partner do next is a protocol of their own, and where they are in it
can be said only of the two together.

`Rendezvous` is a description of such a protocol: what holds of a party that
waits, of one that has expired, and of the two of a pair – `Paired i p`, where
`i` came second and `p` first. The parties are numbered, and live on a heap
`v`. `Inv` says that every party is as described, given the table.

A step of the program is a change of one party, or of the two of a pair, and
perhaps of the table. There is one rule for each kind: `park`, `pairUp` and
`discard` for the changes of the table, `updateParked`, `updateExpired`,
`updateSecond`, `updateFirst` and `updatePair` for the others. A rule asks for
what changed only; that the other parties are still as described is proved
here, once.

`Evolves` is about what a step leaves of the parties, described or not: a
party keeps what never changes of it, and its fate, once it has one. A party may
have an owner: `Apart` says that nobody is paired with a party of their own.
-/

/-- What became of a party. -/
inductive Fate
  | parked
  | matchedWith (peer : ℕ)
  | expired
  deriving DecidableEq

/-! ## Heaps -/

section Heap

variable {α : Type} {l : List α} {i : ℕ} {a : α}

/-- A list as a heap: its entries by position. -/
def heap (l : List α) (i : ℕ) : Option α := l[i]?

theorem heap_modify (h : heap l i = some a) (f : α → α) :
    heap (l.modify i f) = Function.update (heap l) i (some (f a)) := by
  funext j
  unfold heap at h ⊢
  rw [List.getElem?_modify]
  by_cases hj : i = j
  · subst hj
    rw [h, Function.update_self]
    simp
  · rw [Function.update_of_ne (Ne.symm hj)]
    simp [hj]

theorem heap_modify_two {p : ℕ} {b : α} (hne : p ≠ i) (hp : heap l p = some b)
    (hi : heap l i = some a) (f g : α → α) :
    heap ((l.modify p g).modify i f)
      = Function.update (Function.update (heap l) p (some (g b))) i (some (f a)) := by
  have hi' : heap (l.modify p g) i = some a := by
    rw [heap_modify hp, Function.update_of_ne (Ne.symm hne), hi]
  rw [heap_modify hi', heap_modify hp]

theorem heap_append (l : List α) (a : α) :
    heap (l ++ [a]) = Function.update (heap l) l.length (some a) := by
  funext j
  unfold heap
  rcases Nat.lt_trichotomy j l.length with hlt | rfl | hgt
  · rw [Function.update_of_ne (Nat.ne_of_lt hlt), List.getElem?_append_left hlt]
  · rw [Function.update_self, List.getElem?_concat_length]
  · rw [Function.update_of_ne (Nat.ne_of_gt hgt), List.getElem?_eq_none (Nat.le_of_lt hgt),
      List.getElem?_eq_none (by rw [List.length_append]; exact hgt)]

theorem heap_modify_append (h : heap l i = some a) (f : α → α) (b : α) :
    heap (l.modify i f ++ [b])
      = Function.update (Function.update (heap l) i (some (f a))) l.length (some b) := by
  rw [heap_append, List.length_modify, heap_modify h]

theorem heap_length (l : List α) : heap l l.length = none :=
  List.getElem?_eq_none (Nat.le_refl _)

theorem heap_lt (h : heap l i = some a) : i < l.length :=
  (List.getElem?_eq_some_iff.mp h).1

end Heap

/-! ## Protocols -/

/-- **A protocol between parties that meet under a key.** -/
structure Rendezvous (κ α : Type) where
  key : α → κ
  fate : α → Fate
  /-- What holds of a party that waits. -/
  Parked : α → Prop
  /-- What holds of a party that waited too long. -/
  Expired : α → Prop
  /-- What holds of a pair: `i` came second, `p` first. -/
  Paired : (i p : ℕ) → α → α → Prop
  fate_second : ∀ {i p a b}, Paired i p a b → fate a = .matchedWith p
  fate_first : ∀ {i p a b}, Paired i p a b → fate b = .matchedWith i
  key_eq : ∀ {i p a b}, Paired i p a b → key a = key b
  irrefl : ∀ {i a}, ¬ Paired i i a a

namespace Rendezvous

variable {κ α : Type} [DecidableEq κ] (R : Rendezvous κ α)
variable {v v' : ℕ → Option α} {waiting waiting' : GoMap κ ℕ} {i p n : ℕ} {k : κ} {a b c d : α}

/-- Party `a`, at `i`, is as described. -/
def OK (v : ℕ → Option α) (waiting : GoMap κ ℕ) (i : ℕ) (a : α) : Prop :=
  match R.fate a with
  | .parked => waiting.get (R.key a) = some i ∧ R.Parked a
  | .matchedWith p => waiting.get (R.key a) ≠ some i
      ∧ ∃ b, v p = some b ∧ (R.Paired i p a b ∨ R.Paired p i b a)
  | .expired => waiting.get (R.key a) ≠ some i ∧ R.Expired a

/-- **Every party is as described**, and those in the table wait. -/
structure Inv (v : ℕ → Option α) (waiting : GoMap κ ℕ) : Prop where
  waits : ∀ k i, waiting.get k = some i → ∃ a, v i = some a ∧ R.key a = k ∧ R.fate a = .parked
  party : ∀ i a, v i = some a → R.OK v waiting i a

/-- Before anybody comes, all is well. -/
theorem inv_empty : R.Inv (fun _ => none) ∅ := by
  refine ⟨fun k i h => ?_, fun i a h => ?_⟩
  · rw [GoMap.get_empty] at h
    cases h
  · cases h

variable {R}

/-! ## Reading the invariant -/

theorem OK.parked (h : R.OK v waiting i a) (hf : R.fate a = .parked) :
    waiting.get (R.key a) = some i ∧ R.Parked a := by
  unfold OK at h
  rw [hf] at h
  exact h

theorem OK.expired (h : R.OK v waiting i a) (hf : R.fate a = .expired) :
    waiting.get (R.key a) ≠ some i ∧ R.Expired a := by
  unfold OK at h
  rw [hf] at h
  exact h

theorem OK.matched (h : R.OK v waiting i a) (hf : R.fate a = .matchedWith p) :
    waiting.get (R.key a) ≠ some i ∧ ∃ b, v p = some b ∧ (R.Paired i p a b ∨ R.Paired p i b a) := by
  unfold OK at h
  rw [hf] at h
  exact h

theorem ok_parked (hf : R.fate a = .parked) (hw : waiting.get (R.key a) = some i)
    (ha : R.Parked a) : R.OK v waiting i a := by
  unfold OK
  rw [hf]
  exact ⟨hw, ha⟩

theorem ok_expired (hf : R.fate a = .expired) (hw : waiting.get (R.key a) ≠ some i)
    (ha : R.Expired a) : R.OK v waiting i a := by
  unfold OK
  rw [hf]
  exact ⟨hw, ha⟩

theorem ok_second (hw : waiting.get (R.key a) ≠ some i) (hb : v p = some b)
    (hab : R.Paired i p a b) : R.OK v waiting i a := by
  unfold OK
  rw [R.fate_second hab]
  exact ⟨hw, b, hb, Or.inl hab⟩

theorem ok_first (hw : waiting.get (R.key b) ≠ some p) (ha : v i = some a)
    (hab : R.Paired i p a b) : R.OK v waiting p b := by
  unfold OK
  rw [R.fate_first hab]
  exact ⟨hw, a, ha, Or.inr hab⟩

/-- What holds of a party depends on its partner, and on the table at its key. -/
theorem OK.congr (h : R.OK v waiting i a) (hv : ∀ p, R.fate a = .matchedWith p → v' p = v p)
    (hw : waiting'.get (R.key a) = some i ↔ waiting.get (R.key a) = some i) :
    R.OK v' waiting' i a := by
  cases hf : R.fate a with
  | parked =>
    obtain ⟨hwait, ha⟩ := h.parked hf
    exact ok_parked hf (hw.mpr hwait) ha
  | expired =>
    obtain ⟨hwait, ha⟩ := h.expired hf
    exact ok_expired hf (fun hk => hwait (hw.mp hk)) ha
  | matchedWith p =>
    obtain ⟨hwait, b, hb, hab⟩ := h.matched hf
    unfold OK
    rw [hf]
    exact ⟨fun hk => hwait (hw.mp hk), b, (hv p hf).trans hb, hab⟩

namespace Inv

/-- The partner of a matched party has it for a partner. -/
theorem partner (I : R.Inv v waiting) (hi : v i = some a) (hf : R.fate a = .matchedWith p) :
    ∃ b, v p = some b ∧ R.fate b = .matchedWith i ∧ (R.Paired i p a b ∨ R.Paired p i b a) := by
  obtain ⟨-, b, hb, hab⟩ := (I.party i a hi).matched hf
  refine ⟨b, hb, ?_, hab⟩
  rcases hab with hab | hab
  · exact R.fate_first hab
  · exact R.fate_second hab

/-- The two of a pair have met under one key. -/
theorem key_of_matched (I : R.Inv v waiting) (hi : v i = some a) (hp : v p = some b)
    (hf : R.fate a = .matchedWith p) : R.key b = R.key a := by
  obtain ⟨b', hb', -, hab | hab⟩ := I.partner hi hf
  · cases hp.symm.trans hb'
    exact (R.key_eq hab).symm
  · cases hp.symm.trans hb'
    exact R.key_eq hab

/-- A party that waits is in the table under its own key only. -/
theorem key_of_waiting (I : R.Inv v waiting) (hi : v i = some a) (hk : waiting.get k = some i) :
    R.key a = k ∧ R.fate a = .parked := by
  obtain ⟨b, hb, hkey, hf⟩ := I.waits k i hk
  cases hi.symm.trans hb
  exact ⟨hkey, hf⟩

/-- **A party that is not matched changes**, with the table at its own entry. -/
theorem updateAlone (I : R.Inv v waiting) (hi : ∀ b p, v i = some b → R.fate b ≠ .matchedWith p)
    (hw : ∀ k j, j ≠ i → (waiting'.get k = some j ↔ waiting.get k = some j))
    (hself : ∀ k, waiting'.get k = some i → R.key a = k ∧ R.fate a = .parked)
    (ha : R.OK (Function.update v i (some a)) waiting' i a) :
    R.Inv (Function.update v i (some a)) waiting' := by
  refine ⟨fun k j hj => ?_, fun j b hj => ?_⟩
  · by_cases hji : j = i
    · subst hji
      exact ⟨a, Function.update_self _ _ _, hself k hj⟩
    · obtain ⟨b, hb, h⟩ := I.waits k j ((hw k j hji).mp hj)
      exact ⟨b, (Function.update_of_ne hji _ _).trans hb, h⟩
  · by_cases hji : j = i
    · subst hji
      cases (Function.update_self _ _ _).symm.trans hj
      exact ha
    · rw [Function.update_of_ne hji] at hj
      refine (I.party j b hj).congr (fun p hf => Function.update_of_ne ?_ _ _) (hw _ j hji)
      rintro rfl
      obtain ⟨c, hc, hfc, -⟩ := I.partner hj hf
      exact hi c j hc hfc

/-- **Both parties of a pair change**, the table does not. -/
theorem updatePair (I : R.Inv v waiting) (hi : v i = some a) (hp : v p = some b)
    (hab : R.Paired i p a b) (hkc : R.key c = R.key a) (hkd : R.key d = R.key b)
    (hcd : R.Paired i p c d) :
    R.Inv (Function.update (Function.update v p (some d)) i (some c)) waiting := by
  have hfa := R.fate_second hab
  have hfb := R.fate_first hab
  have hne : p ≠ i := by
    rintro rfl
    cases hi.symm.trans hp
    exact R.irrefl hab
  have hget_i : Function.update (Function.update v p (some d)) i (some c) i = some c :=
    Function.update_self _ _ _
  have hget_p : Function.update (Function.update v p (some d)) i (some c) p = some d := by
    rw [Function.update_of_ne hne, Function.update_self]
  have hget : ∀ j, j ≠ i → j ≠ p →
      Function.update (Function.update v p (some d)) i (some c) j = v j := by
    intro j hji hjp
    rw [Function.update_of_ne hji, Function.update_of_ne hjp]
  refine ⟨fun k j hj => ?_, fun j e hj => ?_⟩
  · obtain ⟨e, he, hke, hparked⟩ := I.waits k j hj
    refine ⟨e, ?_, hke, hparked⟩
    rw [hget j, he]
    · rintro rfl
      cases hi.symm.trans he
      cases hfa.symm.trans hparked
    · rintro rfl
      cases hp.symm.trans he
      cases hfb.symm.trans hparked
  · by_cases hji : j = i
    · subst hji
      cases hget_i.symm.trans hj
      exact ok_second (hkc ▸ ((I.party _ a hi).matched hfa).1) hget_p hcd
    · by_cases hjp : j = p
      · subst hjp
        cases hget_p.symm.trans hj
        exact ok_first (hkd ▸ ((I.party _ b hp).matched hfb).1) hget_i hcd
      · rw [hget j hji hjp] at hj
        -- the partner of another party is neither of the two
        refine (I.party j e hj).congr (fun q hf => hget q ?_ ?_) Iff.rfl
        · rintro rfl
          obtain ⟨a', ha', hfa', -⟩ := I.partner hj hf
          cases hi.symm.trans ha'
          exact hjp (Fate.matchedWith.inj (hfa.symm.trans hfa')).symm
        · rintro rfl
          obtain ⟨b', hb', hfb', -⟩ := I.partner hj hf
          cases hp.symm.trans hb'
          exact hji (Fate.matchedWith.inj (hfb.symm.trans hfb')).symm

/-- **The second party of a pair changes.** -/
theorem updateSecond (I : R.Inv v waiting) (hi : v i = some a) (hp : v p = some b)
    (hab : R.Paired i p a b) (hcb : R.Paired i p c b) :
    R.Inv (Function.update v i (some c)) waiting := by
  have hkc : R.key c = R.key a := (R.key_eq hcb).trans (R.key_eq hab).symm
  have h := I.updatePair hi hp hab hkc rfl hcb
  rwa [← hp, Function.update_eq_self] at h

/-- **The first party of a pair changes.** -/
theorem updateFirst (I : R.Inv v waiting) (hi : v i = some a) (hp : v p = some b)
    (hab : R.Paired i p a b) (had : R.Paired i p a d) :
    R.Inv (Function.update v p (some d)) waiting := by
  have hne : i ≠ p := by
    rintro rfl
    cases hi.symm.trans hp
    exact R.irrefl hab
  have hkd : R.key d = R.key b := (R.key_eq had).symm.trans (R.key_eq hab)
  have h := I.updatePair hi hp hab rfl hkd had
  rwa [Function.update_comm hne.symm, ← hi, Function.update_eq_self] at h

/-- **A party that waits changes**, and goes on waiting. -/
theorem updateParked (I : R.Inv v waiting) (hi : v i = some a) (hf : R.fate a = .parked)
    (hk : R.key c = R.key a) (hf' : R.fate c = .parked) (hc : R.Parked c) :
    R.Inv (Function.update v i (some c)) waiting := by
  have hwait := ((I.party i a hi).parked hf).1
  refine I.updateAlone (fun b p hb hfb => ?_) (fun _ _ _ => Iff.rfl) (fun k hki => ?_)
    (ok_parked hf' (hk ▸ hwait) hc)
  · cases hi.symm.trans hb
    cases hf.symm.trans hfb
  · exact ⟨hk.trans (I.key_of_waiting hi hki).1, hf'⟩

/-- **A party that has expired changes.** -/
theorem updateExpired (I : R.Inv v waiting) (hi : v i = some a) (hf : R.fate a = .expired)
    (hk : R.key c = R.key a) (hf' : R.fate c = .expired) (hc : R.Expired c) :
    R.Inv (Function.update v i (some c)) waiting := by
  have hwait := ((I.party i a hi).expired hf).1
  refine I.updateAlone (fun b p hb hfb => ?_) (fun _ _ _ => Iff.rfl) (fun k hki => ?_)
    (ok_expired hf' (hk ▸ hwait) hc)
  · cases hi.symm.trans hb
    cases hf.symm.trans hfb
  · cases hf.symm.trans (I.key_of_waiting hi hki).2

/-- **A party comes first**, and waits. -/
theorem park (I : R.Inv v waiting) (hn : v n = none) (hk : waiting.get k = none)
    (hka : R.key a = k) (hf : R.fate a = .parked) (ha : R.Parked a) :
    R.Inv (Function.update v n (some a)) (waiting.set k n) := by
  have hset : (waiting.set k n).get (R.key a) = some n := by
    rw [hka, GoMap.get_set_self]
  refine I.updateAlone (fun b p hb => ?_) (fun k' j hj => ?_) (fun k' hk' => ?_)
    (ok_parked hf hset ha)
  · cases hn.symm.trans hb
  · rw [GoMap.get_set]
    split_ifs with hkk
    · rw [hkk, hk]
      exact ⟨fun h => absurd (Option.some.inj h).symm hj, fun h => (by cases h)⟩
    · exact Iff.rfl
  · rw [GoMap.get_set] at hk'
    split_ifs at hk' with hkk
    · exact ⟨hka.trans hkk.symm, hf⟩
    · obtain ⟨b, hb, -⟩ := I.waits k' n hk'
      cases hn.symm.trans hb

/-- **A party that waits is taken out, and has expired.** -/
theorem discard (I : R.Inv v waiting) (hi : v i = some a) (hk : waiting.get (R.key a) = some i)
    (hkc : R.key c = R.key a) (hf : R.fate c = .expired) (hc : R.Expired c) :
    R.Inv (Function.update v i (some c)) (waiting.del (R.key a)) := by
  have hparked := (I.key_of_waiting hi hk).2
  refine I.updateAlone (fun b p hb hfb => ?_) (fun k j hj => ?_) (fun k hki => ?_)
    (ok_expired hf ?_ hc)
  · cases hi.symm.trans hb
    cases hparked.symm.trans hfb
  · rw [GoMap.get_del]
    split_ifs with hkk
    · rw [hkk, hk]
      exact ⟨fun h => (by cases h), fun h => absurd (Option.some.inj h).symm hj⟩
    · exact Iff.rfl
  · obtain ⟨hki, hne⟩ := GoMap.of_get_del hki
    exact absurd (I.key_of_waiting hi hki).1.symm hne
  · rw [hkc, GoMap.get_del_self]
    exact fun h => (by cases h)

/-- **A party comes second**, and takes the one that waits. -/
theorem pairUp (I : R.Inv v waiting) (hn : v n = none) (hp : v p = some b)
    (hk : waiting.get k = some p) (hkc : R.key c = k) (hcd : R.Paired n p c d) :
    R.Inv (Function.update (Function.update v p (some d)) n (some c)) (waiting.del k) := by
  obtain ⟨hkb, hparked⟩ := I.key_of_waiting hp hk
  have hkd : R.key d = k := (R.key_eq hcd).symm.trans hkc
  have hne : p ≠ n := by
    rintro rfl
    cases hn.symm.trans hp
  have hget_n : Function.update (Function.update v p (some d)) n (some c) n = some c :=
    Function.update_self _ _ _
  have hget_p : Function.update (Function.update v p (some d)) n (some c) p = some d := by
    rw [Function.update_of_ne hne, Function.update_self]
  have hget : ∀ j, j ≠ n → j ≠ p →
      Function.update (Function.update v p (some d)) n (some c) j = v j := by
    intro j hjn hjp
    rw [Function.update_of_ne hjn, Function.update_of_ne hjp]
  have hdel : ∀ j, (waiting.del k).get k ≠ some j := by
    intro j hj
    rw [GoMap.get_del_self] at hj
    cases hj
  refine ⟨fun k' j hj => ?_, fun j e hj => ?_⟩
  · obtain ⟨hj, hkk⟩ := GoMap.of_get_del hj
    obtain ⟨e, he, hke, hf⟩ := I.waits k' j hj
    refine ⟨e, ?_, hke, hf⟩
    rw [hget j, he]
    · rintro rfl
      cases hn.symm.trans he
    · rintro rfl
      cases hp.symm.trans he
      exact hkk (hke.symm.trans hkb)
  · by_cases hjn : j = n
    · subst hjn
      cases hget_n.symm.trans hj
      exact ok_second (hkc ▸ hdel _) hget_p hcd
    · by_cases hjp : j = p
      · subst hjp
        cases hget_p.symm.trans hj
        exact ok_first (hkd ▸ hdel _) hget_n hcd
      · rw [hget j hjn hjp] at hj
        refine (I.party j e hj).congr (fun q hf => hget q ?_ ?_) ?_
        · rintro rfl
          obtain ⟨a', ha', -⟩ := I.partner hj hf
          cases hn.symm.trans ha'
        · rintro rfl
          obtain ⟨b', hb', hfb', -⟩ := I.partner hj hf
          cases hp.symm.trans hb'
          cases hparked.symm.trans hfb'
        · rw [GoMap.get_del]
          split_ifs with hkk
          · rw [hkk, hk]
            exact ⟨fun h => (by cases h), fun h => absurd (Option.some.inj h).symm hjp⟩
          · exact Iff.rfl

end Inv

/-! ## Parties over time -/

variable (R) in
/-- **What a step leaves of the parties.** A party is there afterwards, with what
`K` keeps of it, and with its fate, unless it waited and is given one of `x`. A
new party has `N`, and waits, or is given one of `x`. -/
structure Evolves (K : α → α → Prop) (N : α → Prop) (x : ℕ → Fate → Prop)
    (v v' : ℕ → Option α) : Prop where
  old : ∀ i a, v i = some a → ∃ c, v' i = some c ∧ K a c
    ∧ (R.fate c = R.fate a ∨ (R.fate a = .parked ∧ x i (R.fate c)))
  new : ∀ i c, v i = none → v' i = some c → N c ∧ (R.fate c = .parked ∨ x i (R.fate c))

namespace Evolves

variable {K K' : α → α → Prop} {N N' : α → Prop} {x : ℕ → Fate → Prop} {v'' : ℕ → Option α}

omit [DecidableEq κ]

/-- Nothing happens to the parties. -/
theorem refl (hK : ∀ a, K a a) (v : ℕ → Option α) : R.Evolves K N x v v := by
  refine ⟨fun i a hi => ⟨a, hi, hK a, Or.inl rfl⟩, fun i c hi hc => ?_⟩
  cases hi.symm.trans hc

theorem mono (h : R.Evolves K N x v v') (hK : ∀ a c, K a c → K' a c) (hN : ∀ a, N a → N' a) :
    R.Evolves K' N' x v v' := by
  refine ⟨fun i a hi => ?_, fun i c hi hc => ?_⟩
  · obtain ⟨c, hc, hac, hf⟩ := h.old i a hi
    exact ⟨c, hc, hK a c hac, hf⟩
  · exact (h.new i c hi hc).imp_left (hN c)

/-- Two steps to which nobody comes, and of which only the first settles
anything. -/
theorem trans (hK : ∀ a b c, K a b → K b c → K a c) (h : R.Evolves K (fun _ => False) x v v')
    (h' : R.Evolves K (fun _ => False) (fun _ _ => False) v' v'') :
    R.Evolves K (fun _ => False) x v v'' := by
  refine ⟨fun i a hi => ?_, fun i c hi hc => ?_⟩
  · obtain ⟨b, hb, hab, hf⟩ := h.old i a hi
    obtain ⟨c, hc, hbc, hf'⟩ := h'.old i b hb
    have hcb : R.fate c = R.fate b := hf'.resolve_right (fun h => h.2)
    exact ⟨c, hc, hK a b c hab hbc, hcb ▸ hf⟩
  · cases hb : v' i with
    | none => exact (h'.new i c hb hc).1.elim
    | some b => exact (h.new i b hi hb).1.elim

/-- One party changes. -/
theorem update (hK : ∀ a, K a a) (hi : v i = some a) (hac : K a c)
    (hf : R.fate c = R.fate a ∨ (R.fate a = .parked ∧ x i (R.fate c))) :
    R.Evolves K N x v (Function.update v i (some c)) := by
  refine ⟨fun j b hj => ?_, fun j d hj hd => ?_⟩
  all_goals by_cases hji : j = i
  · subst hji
    cases hi.symm.trans hj
    exact ⟨c, Function.update_self _ _ _, hac, hf⟩
  · exact ⟨b, (Function.update_of_ne hji _ _).trans hj, hK b, Or.inl rfl⟩
  · subst hji
    cases hi.symm.trans hj
  · rw [Function.update_of_ne hji, hj] at hd
    cases hd

/-- A party comes. -/
theorem come (h : R.Evolves K N x v v') (hn : v n = none) (hN : N c)
    (hf : R.fate c = .parked ∨ x n (R.fate c)) :
    R.Evolves K N x v (Function.update v' n (some c)) := by
  refine ⟨fun j b hj => ?_, fun j d hj hd => ?_⟩
  all_goals by_cases hjn : j = n
  · subst hjn
    cases hn.symm.trans hj
  · rw [Function.update_of_ne hjn]
    exact h.old j b hj
  · subst hjn
    rw [Function.update_self] at hd
    cases hd
    exact ⟨hN, hf⟩
  · rw [Function.update_of_ne hjn] at hd
    exact h.new j d hj hd

/-- Once a party has a fate, it stays. -/
theorem settled (h : R.Evolves K N x v v') (hi : v i = some a) (hf : R.fate a ≠ .parked) :
    ∃ c, v' i = some c ∧ K a c ∧ R.fate c = R.fate a := by
  obtain ⟨c, hc, hac, hfc⟩ := h.old i a hi
  exact ⟨c, hc, hac, hfc.resolve_right (fun h => hf h.1)⟩

/-- A party that has a fate had it before, or has just been given it. -/
theorem of_fate (h : R.Evolves K N x v v') (hi : v' i = some c) (hf : R.fate c ≠ .parked) :
    (∃ a, v i = some a ∧ K a c ∧ R.fate a = R.fate c) ∨ x i (R.fate c) := by
  cases ha : v i with
  | none => exact Or.inr ((h.new i c ha hi).2.resolve_left hf)
  | some a =>
    obtain ⟨c', hc', hac, hfc⟩ := h.old i a ha
    cases hi.symm.trans hc'
    exact hfc.imp (fun h => ⟨a, rfl, hac, h.symm⟩) (fun h => h.2)

end Evolves

/-! ## Parties with owners -/

section Owners

variable {ω : Type} {own : α → ω}

variable (R) in
/-- **The two of a pair have different owners.** -/
def Apart (own : α → ω) (v : ℕ → Option α) : Prop :=
  ∀ i p a b, v i = some a → v p = some b → R.fate a = .matchedWith p → own a ≠ own b

/-- **Pairs of different owners stay so.** A step makes such pairs only, as long as
the party that comes, at `n`, has not the owner of the one, at `q`, that it takes. -/
theorem Evolves.apart {K : α → α → Prop} {N : α → Prop} {x : ℕ → Fate → Prop}
    (h : R.Evolves K N x v v') (I : R.Inv v waiting) (hA : R.Apart own v)
    (hK : ∀ a c, K a c → own c = own a) (hn : v n = none)
    (hx : ∀ i f, x i f → f ≠ .expired → ∃ k q, waiting.get k = some q
      ∧ ((i = q ∧ f = .matchedWith n) ∨ (i = n ∧ f = .matchedWith q))
      ∧ ∀ b d, v q = some b → N d → own b ≠ own d) :
    R.Apart own v' := by
  intro i p c d hi hp hf
  rcases h.of_fate hi (fun hpk => by cases hpk.symm.trans hf) with ⟨a, ha, hac, hfa⟩ | hnew
  · obtain ⟨b, hb, -⟩ := I.partner ha (hfa.trans hf)
    obtain ⟨d', hd', hbd, -⟩ := h.old p b hb
    cases hp.symm.trans hd'
    rw [hK a c hac, hK b d hbd]
    exact hA i p a b ha hb (hfa.trans hf)
  · rw [hf] at hnew
    obtain ⟨k, q, hq, hside, hother⟩ := hx i _ hnew (by rintro ⟨⟩)
    obtain ⟨b, hb, -⟩ := I.waits k q hq
    -- the two of a new pair: the party that waited, and the one that came
    have hpair : ∀ {c d}, v' q = some c → v' n = some d → own c ≠ own d := by
      intro c d hc hd
      obtain ⟨c', hc', hbc, -⟩ := h.old q b hb
      cases hc.symm.trans hc'
      rw [hK b c hbc]
      exact hother b d hb (h.new n d hn hd).1
    rcases hside with ⟨rfl, hfp⟩ | ⟨rfl, hfp⟩
    · cases hfp
      exact hpair hi hp
    · cases hfp
      exact (hpair hp hi).symm

omit [DecidableEq κ] in
/-- A party that takes one of its own owner is paired with it. -/
theorem not_apart_of_pair (hn : v n = none) (hp : v p = some b) (hd : own d = own b)
    (hc : own c = own b) (hf : R.fate c = .matchedWith p) :
    ¬ R.Apart own (Function.update (Function.update v p (some d)) n (some c)) := by
  intro hA
  have hne : p ≠ n := by
    rintro rfl
    cases hn.symm.trans hp
  refine hA n p c d (Function.update_self _ _ _) ?_ hf (hc.trans hd.symm)
  rw [Function.update_of_ne hne, Function.update_self]

end Owners

end Rendezvous
