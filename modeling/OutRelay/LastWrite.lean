import Mathlib.Data.List.Induction
import Mathlib.Order.Basic
import OutRelay.Run

/-!
# Maps where the last write counts, and values that expire

A map that is only written and erased is known from its writes: under each key
it has what the last write on that key says (`lastWrite`). A program that keeps
such a map also drops entries on its own account, to save memory. That is
harmless when no reader can tell, and the reason is usually time: the entries
it drops have expired, and what has expired stays so (`Expiry`).

`visible m t` is what a reader finds at time `t`, and two maps are the same
*from `t` on* when readers at `t` and later find the same in both
(`SameFrom`). Dropping expired entries does not leave the class
(`sameFrom_of_dropped`), and a write respects it (`SameFrom.write`). So a
program that writes, and sweeps when it likes, keeps a map that is the same as
the last-write map from its present time on (`sameFrom_lastWrite`).
-/

/-- **A write**: a value put under a key, or the key erased. -/
inductive Write (κ ν : Type)
  | put (k : κ) (v : ν)
  | erase (k : κ)

namespace Write

variable {ε κ ν : Type} [DecidableEq κ]

/-- The key that is written. -/
def key : Write κ ν → κ
  | .put k _ | .erase k => k

/-- What is then under the key. -/
def value : Write κ ν → Option ν
  | .put _ v => some v
  | .erase _ => none

/-- The map after the write. -/
def apply (w : Write κ ν) (m : κ → Option ν) : κ → Option ν := Function.update m w.key w.value

/-- **The last write on each key**, over a list of writes that starts with the
oldest. -/
def lastWrite (ws : List (Write κ ν)) : κ → Option ν :=
  ws.foldl (fun m w => w.apply m) (fun _ => none)

theorem lastWrite_concat (ws : List (Write κ ν)) (w : Write κ ν) :
    lastWrite (ws ++ [w]) = w.apply (lastWrite ws) := by
  unfold lastWrite
  rw [List.foldl_append]
  rfl

/-- The event does not write under the key. -/
def Spares (write : ε → Option (Write κ ν)) (k : κ) (e : ε) : Prop :=
  ∀ w, write e = some w → w.key ≠ k

/-- The map after an event that may write. -/
def after (w : Option (Write κ ν)) (m : κ → Option ν) : κ → Option ν :=
  w.elim m (fun w => w.apply m)

/-- The writes of a longer list of events. -/
theorem lastWrite_filterMap_concat (write : ε → Option (Write κ ν)) (h : List ε) (e : ε) :
    lastWrite ((h ++ [e]).filterMap write)
      = after (write e) (lastWrite (h.filterMap write)) := by
  rw [List.filterMap_append]
  cases hw : write e with
  | none => simp [hw, after]
  | some w =>
    rw [List.filterMap_cons_some hw]
    exact lastWrite_concat _ w

theorem lastWrite_concat_of_spares {write : ε → Option (Write κ ν)} {h : List ε} {e : ε} {k : κ}
    (hspare : Spares write k e) :
    lastWrite ((h ++ [e]).filterMap write) k = lastWrite (h.filterMap write) k := by
  rw [lastWrite_filterMap_concat]
  cases hw : write e with
  | none => rfl
  | some w => exact Function.update_of_ne (hspare w hw).symm _ _

theorem lastWrite_concat_of_key {write : ε → Option (Write κ ν)} {h : List ε} {e : ε}
    {w : Write κ ν} (hw : write e = some w) :
    lastWrite ((h ++ [e]).filterMap write) w.key = w.value := by
  rw [lastWrite_filterMap_concat, hw]
  exact Function.update_self _ _ _

omit [DecidableEq κ] in
theorem eq_put_of_value {w : Write κ ν} {v : ν} (hv : w.value = some v) : w = .put w.key v := by
  cases w with
  | put k v' =>
    cases hv
    rfl
  | erase k => cases hv

/-- **A value is under a key when it was put there and the key has not been
written since.** -/
theorem lastWrite_eq_some_iff {write : ε → Option (Write κ ν)} {h : List ε} {k : κ} {v : ν} :
    lastWrite (h.filterMap write) k = some v
      ↔ ∃ n, At h n (fun e => write e = some (.put k v)) ∧ Since h (n + 1) (Spares write k) := by
  induction h using List.reverseRecOn with
  | nil =>
    constructor
    · intro h
      cases h
    · rintro ⟨n, hat, -⟩
      exact absurd hat.lt (Nat.not_lt_zero n)
  | append_singleton h e ih =>
    by_cases hspare : Spares write k e
    · rw [lastWrite_concat_of_spares hspare, ih]
      constructor
      · exact fun ⟨n, hat, hsince⟩ => ⟨n, hat.snoc e, hsince.snoc hspare⟩
      · rintro ⟨n, ⟨u, hu, hput⟩, hsince⟩
        rcases of_getElem?_concat hu with hu | ⟨-, rfl⟩
        · refine ⟨n, ⟨u, hu, hput⟩, fun j t hj ht => hsince j t hj ?_⟩
          exact (List.getElem?_append_left (List.getElem?_eq_some_iff.mp ht).1).trans ht
        · exact absurd rfl (hspare _ hput)
    · -- the new event decides, whatever came before
      obtain ⟨w, hw, hkey⟩ : ∃ w, write e = some w ∧ w.key = k := by
        by_contra hno
        exact hspare fun w hw hk => hno ⟨w, hw, hk⟩
      subst hkey
      rw [lastWrite_concat_of_key hw]
      constructor
      · intro hv
        refine ⟨h.length, at_length (hw.trans (congrArg some (eq_put_of_value hv))), ?_⟩
        exact since_of_length_le (Nat.le_of_eq (List.length_append ..))
      · rintro ⟨n, ⟨u, hu, hput⟩, hsince⟩
        rcases of_getElem?_concat hu with hu | ⟨-, rfl⟩
        · have hn : n + 1 ≤ h.length := (List.getElem?_eq_some_iff.mp hu).1
          exact absurd (hsince h.length e hn List.getElem?_concat_length) hspare
        · rw [hw] at hput
          rw [Option.some.inj hput]
          rfl

end Write

/-! ## Values that expire -/

/-- **An expiry**: a test of a value and the time, which stays true. -/
structure Expiry (ν τ : Type) [Preorder τ] where
  dead : ν → τ → Bool
  mono : ∀ {v : ν} {t t' : τ}, t ≤ t' → dead v t = true → dead v t' = true

namespace Expiry

variable {κ ν τ : Type} [DecidableEq κ] [Preorder τ] (x : Expiry ν τ)

/-- What a reader finds at time `t`. -/
def visible (m : κ → Option ν) (t : τ) (k : κ) : Option ν := (m k).filter (fun v => !x.dead v t)

/-- **From `t` on, readers find the same in both maps.** -/
def SameFrom (t : τ) (m m' : κ → Option ν) : Prop :=
  ∀ t', t ≤ t' → ∀ k, x.visible m t' k = x.visible m' t' k

variable {x} {t t' : τ} {m m' m'' : κ → Option ν}

omit [DecidableEq κ] in
theorem visible_eq_some_iff {k : κ} {v : ν} :
    x.visible m t k = some v ↔ m k = some v ∧ x.dead v t = false := by
  unfold visible
  rw [Option.filter_eq_some_iff, Bool.not_eq_true']

omit [DecidableEq κ] in
theorem SameFrom.refl (t : τ) (m : κ → Option ν) : x.SameFrom t m m := fun _ _ _ => rfl

omit [DecidableEq κ] in
theorem SameFrom.trans (h : x.SameFrom t m m') (h' : x.SameFrom t m' m'') :
    x.SameFrom t m m'' :=
  fun t' ht k => (h t' ht k).trans (h' t' ht k)

omit [DecidableEq κ] in
theorem SameFrom.later (h : x.SameFrom t m m') (ht : t ≤ t') : x.SameFrom t' m m' :=
  fun t'' ht'' => h t'' (ht.trans ht'')

/-- A write respects what readers find. -/
theorem SameFrom.write (h : x.SameFrom t m m') (w : Write κ ν) :
    x.SameFrom t (w.apply m) (w.apply m') := by
  intro t' ht k
  show ((w.apply m) k).filter _ = ((w.apply m') k).filter _
  unfold Write.apply
  by_cases hk : k = w.key
  · rw [hk, Function.update_self, Function.update_self]
  · rw [Function.update_of_ne hk, Function.update_of_ne hk]
    exact h t' ht k

theorem SameFrom.after (h : x.SameFrom t m m') (w : Option (Write κ ν)) :
    x.SameFrom t (Write.after w m) (Write.after w m') := by
  cases w with
  | none => exact h
  | some w => exact h.write w

omit [DecidableEq κ] in
/-- **Dropping what has expired is not seen.** -/
theorem sameFrom_of_dropped
    (h : ∀ k, m' k = m k ∨ (m' k = none ∧ ∀ v, m k = some v → x.dead v t = true)) :
    x.SameFrom t m' m := by
  intro t' ht k
  unfold visible
  rcases h k with hk | ⟨hk, hdead⟩
  · rw [hk]
  · rw [hk]
    cases hm : m k with
    | none => rfl
    | some v => simp [Option.filter, x.mono ht (hdead v hm)]

/-- **The rule for a run that writes and sweeps.** If each step moves the clock
forwards and is its write, for every reader from then on, the map of the last
state is the last-write map of the run, for every reader from then on. -/
theorem sameFrom_lastWrite {σ ε : Type} {M : Machine σ ε} {h : List (Transition σ ε)} {s : σ}
    (read : σ → κ → Option ν) (clock : σ → τ) (write : Transition σ ε → Option (Write κ ν))
    (hinit : ∀ k, read M.init k = none)
    (hstep : ∀ {s e s'}, M.step s e = some s' → clock s ≤ clock s'
      ∧ x.SameFrom (clock s') (read s') (Write.after (write ⟨s, e, s'⟩) (read s)))
    (hx : M.Exec h s) :
    x.SameFrom (clock s) (read s) (Write.lastWrite (h.filterMap write)) := by
  induction hx with
  | nil =>
    rw [show read M.init = fun _ => none from funext hinit]
    exact SameFrom.refl _ _
  | snoc hx he ih =>
    obtain ⟨hclock, hsame⟩ := hstep he
    rw [Write.lastWrite_filterMap_concat]
    exact hsame.trans ((ih.later hclock).after _)

end Expiry
