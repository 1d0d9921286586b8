import OutRelay.PolicyCache

/-!
# How long an old decision survives

An update of the policy stores a new snapshot and then flushes the cache, so
that what was decided before is not handed out any more. The two are not one
step, and a call of `evaluate` may have asked the engine before the update and
put the answer into the cache after the flush. Later calls hit that entry.

`evaluate_settled` says that nothing else can go wrong. After a flush, and as long as no
other snapshot is stored, a call that starts gets the answer of the snapshot in
force – or an answer that some call had in its hands at the flush, which that
call has put since, less than `CacheTTL` ago. So a permission that is taken away
is gone with the flush, up to calls that are under way, and for these it is gone
`CacheTTL` after the last of them has put its answer.
-/

section Settle

variable {h : List (Transition CacheState CacheEvent)} {s s' : CacheState} {ev : CacheEvent}
variable {i j n : ℕ} {key : CacheKey} {r : Result} {start : ℤ}
variable {t u : Transition CacheState CacheEvent}

/-- Call `i` starts. -/
def Starts (i : ℕ) (key : CacheKey) (t : Transition CacheState CacheEvent) : Prop :=
  t.ev = .evaluate key ∧ t.pre.calls.length = i

/-- Call `i` returns `r`. -/
def Returns (i : ℕ) (key : CacheKey) (r : Result) (t : Transition CacheState CacheEvent) : Prop :=
  t.pre.calls[i]? ≠ some ⟨key, .done r⟩ ∧ t.post.calls[i]? = some ⟨key, .done r⟩

/-- An update stores its snapshot. -/
def StoresSnapshot (t : Transition CacheState CacheEvent) : Prop := ∃ k, t.ev = .apply (.store k)

/-! ## What a step can do -/

/-- **A call returns what it has found in the cache, or what it puts there.** -/
theorem CacheState.Steps.of_done (hstep : s.Steps ev s')
    (hc' : s'.calls[i]? = some ⟨key, .done r⟩) :
    s.calls[i]? = some ⟨key, .done r⟩
      ∨ (∃ e, s.calls[i]? = some ⟨key, .check e⟩ ∧ e.res = r ∧ s.now < e.expires)
      ∨ s.calls[i]? = some ⟨key, .put r⟩ := by
  cases hstep with
  | evaluate =>
    rcases of_getElem?_concat hc' with hold | ⟨-, heq⟩
    · exact Or.inl hold
    · cases heq
  | hit hc hnow =>
    rcases of_getElem?_goOn hc' with ⟨rfl, heq⟩ | hold
    · cases heq
      exact Or.inr (Or.inl ⟨_, hc, rfl, hnow⟩)
    · exact Or.inl hold
  | put hc _ _ =>
    rcases of_getElem?_goOn hc' with ⟨rfl, heq⟩ | hold
    · cases heq
      exact Or.inr (Or.inr hc)
    · exact Or.inl hold
  | found | missed | stale | expire | decide =>
    rcases of_getElem?_goOn hc' with ⟨rfl, heq⟩ | hold
    · cases heq
    · exact Or.inl hold
  | flush | apply | tick => exact Or.inl hc'

/-- Calls are not taken away. -/
theorem CacheState.Steps.length_le (hstep : s.Steps ev s') : s.calls.length ≤ s'.calls.length := by
  cases hstep with
  | evaluate => exact List.length_append ▸ Nat.le_add_right _ _
  | found | missed | hit | stale | expire | decide | put => exact (List.length_set ..).ge
  | flush | apply | tick => exact Nat.le_refl _

/-- The snapshot in force changes only when one is stored. -/
theorem CacheState.Steps.cur_eq (hstep : s.Steps ev s') (hev : ∀ k, ev ≠ .apply (.store k)) :
    s'.policy.engine.cur = s.policy.engine.cur := by
  cases hstep with
  | @apply e p hp =>
    cases e with
    | store k => exact absurd rfl (hev k)
    | enter u order =>
      simp only [PublishState.step] at hp
      split_ifs at hp
      cases hp
      rfl
  | _ => rfl

/-! ## Along a run -/

/-- A call has started before it does anything. -/
theorem lt_of_starts (hx : (cacheMachine start).Exec h s) {b : ℕ} (hb : At h b (Starts i key))
    (hn : h[n]? = some t) {c : EvalCall} (hc : t.pre.calls[i]? = some c) : b < n := by
  obtain ⟨u, hu, -, hlen⟩ := hb
  have hlt : i < t.pre.calls.length := (List.getElem?_eq_some_iff.mp hc).1
  rcases Nat.lt_trichotomy b n with h' | rfl | h'
  · exact h'
  · cases hu.symm.trans hn
    exact absurd hlen (Nat.ne_of_gt hlt)
  · -- the call would be there before it starts
    obtain ⟨h₁, h₂, rfl, hlen₁, hx₁, -⟩ := hx.of_getElem? hu
    have hn₁ : h₁[n]? = some t := by
      rwa [List.getElem?_append_left (hlen₁ ▸ h')] at hn
    obtain ⟨-, -, -, -, -, hstep⟩ := hx₁.of_getElem? hn₁
    have hle : t.pre.calls.length ≤ u.pre.calls.length := by
      refine hx₁.keeps_from (Q := fun s => t.pre.calls.length ≤ s.calls.length) hn₁
        (CacheState.steps_of_step hstep).length_le fun hQ he => ?_
      exact Nat.le_trans hQ (CacheState.steps_of_step he).length_le
    omega

/-- **The snapshot in force stays** while none is stored. -/
theorem cur_of_since (hx : (cacheMachine start).Exec h s) (hn : h[n]? = some t)
    (hquiet : Since h n fun u => ¬ StoresSnapshot u) :
    s.policy.engine.cur = t.pre.policy.engine.cur := by
  induction hx with
  | nil => cases hn
  | @snoc h s s' e hx he ih =>
    have hlast : (h ++ [⟨s, e, s'⟩])[h.length]? = some ⟨s, e, s'⟩ := List.getElem?_concat_length
    have hcur : n ≤ h.length → s'.policy.engine.cur = s.policy.engine.cur := fun hle =>
      (CacheState.steps_of_step he).cur_eq fun k hk => hquiet _ _ hle hlast ⟨k, hk⟩
    rcases of_getElem?_concat hn with hn | ⟨rfl, rfl⟩
    · have hlt := (List.getElem?_eq_some_iff.mp hn).1
      refine (hcur (Nat.le_of_lt hlt)).trans (ih hn fun m u hm hu => hquiet m u hm ?_)
      exact (List.getElem?_append_left (List.getElem?_eq_some_iff.mp hu).1).trans hu
    · exact hcur (Nat.le_refl _)

/-- **What a call is about to put** it had in its hands after step `n`, or it has asked
the engine since. -/
theorem held_or_decided (hx : (cacheMachine start).Exec h s)
    (hc : s.calls[j]? = some ⟨key, .put r⟩) (hn : h[n]? = some t) :
    t.post.calls[j]? = some ⟨key, .put r⟩ ∨ ∃ d, n < d ∧ At h d (Decides j key r) := by
  induction hx with
  | nil => cases hn
  | @snoc h s s' e hx he ih =>
    rcases of_getElem?_concat hn with hold | ⟨rfl, rfl⟩
    · have hlt := (List.getElem?_eq_some_iff.mp hold).1
      rcases (CacheState.steps_of_step he).of_put hc with hput | ⟨rfl, hdecide, hr⟩
      · rcases ih hput hold with hheld | ⟨d, hd, hat⟩
        · exact Or.inl hheld
        · exact Or.inr ⟨d, hd, hat.snoc _⟩
      · exact Or.inr ⟨h.length, hlt, at_length ⟨rfl, hdecide, hr⟩⟩
    · exact Or.inl hc

/-- What the engine has answered since it is the answer of the snapshot in force. -/
theorem decided_since (hx : (cacheMachine start).Exec h s) {f d : ℕ} (hfd : f < d)
    (hd : At h d (Decides j key r)) (hquiet : Since h (f + 1) fun u => ¬ StoresSnapshot u) :
    ∃ u, h[d]? = some u ∧ r = s.policy.engine.decide (key.query u.pre.now) := by
  obtain ⟨u, hu, -, -, hr⟩ := hd
  have hcur := cur_of_since hx hu fun m v hm hv => hquiet m v (Nat.le_trans hfd hm) hv
  refine ⟨u, hu, hr.symm.trans ?_⟩
  unfold Engine.decide
  rw [hcur]

end Settle

/-- **After a flush, old answers come only from calls that were under way.** Let the
cache be flushed at position `f`, and no snapshot be stored after it. A call that
starts later and returns `r` at position `n` returns the answer of the snapshot in
force at the end, at some time after the flush; or `r` is an answer that a call `j`
had in its hands at the flush and has put since, less than `CacheTTL` before. -/
theorem evaluate_settled {start : ℤ} {h : List (Transition CacheState CacheEvent)} {s : CacheState}
    (hx : (cacheMachine start).Exec h s) {f b n i : ℕ} {key : CacheKey} {r : Result}
    {t u : Transition CacheState CacheEvent} (hf : h[f]? = some u) (hflush : u.ev = .flush)
    (hquiet : Since h (f + 1) fun v => ¬ StoresSnapshot v) (hb : At h b (Starts i key))
    (hfb : f < b) (hn : h[n]? = some t) (hret : Returns i key r t) :
    (∃ d v, f < d ∧ d < n ∧ h[d]? = some v ∧ r = s.policy.engine.decide (key.query v.pre.now))
      ∨ ∃ j p t₁, u.post.calls[j]? = some ⟨key, .put r⟩ ∧ f < p ∧ p < n
        ∧ At h p (Puts j key r t₁) ∧ t.pre.now < t₁ + cacheTTL := by
  obtain ⟨h₁, h₂, rfl, hlen, hx₁, hstep⟩ := hx.of_getElem? hn
  have hat : ∀ {m : ℕ} {v : Transition CacheState CacheEvent}, h₁[m]? = some v →
      (h₁ ++ h₂)[m]? = some v := fun hv =>
    (List.getElem?_append_left (List.getElem?_eq_some_iff.mp hv).1).trans hv
  have hanswer : ∀ {j d : ℕ}, f < d → At h₁ d (Decides j key r) → ∃ d v, f < d ∧ d < n
      ∧ (h₁ ++ h₂)[d]? = some v ∧ r = s.policy.engine.decide (key.query v.pre.now) := by
    intro j d hfd hd
    obtain ⟨v, hv, hr⟩ := decided_since hx hfd (hd.append _) hquiet
    exact ⟨d, v, hfd, hlen ▸ hd.lt, hv, hr⟩
  rcases (CacheState.steps_of_step hstep).of_done hret.2 with hold | ⟨e, hc, rfl, hnow⟩ | hc
  · exact absurd hold hret.1
  · -- a hit: the entry was put after the flush, as the call has read it after the flush
    obtain ⟨j, p, m, t₁, -, hby, hexp, -, hpm, hread, hbtw⟩ :=
      (traced_of_exec hx₁).checking i key e hc
    obtain ⟨v, hv, hget, hreadc⟩ := hread
    have hbm : b < m := lt_of_starts hx hb (hat hv) hreadc
    obtain ⟨w, hw, ⟨first, second, hputev⟩, hput⟩ := hby.put
    have hfp : f < p := by
      rcases Nat.lt_trichotomy f p with hlt | rfl | hgt
      · exact hlt
      · cases hf.symm.trans (hat hw)
        cases hflush.symm.trans hputev
      · have hfm : f < m := Nat.lt_trans hfb hbm
        have hf₁ : h₁[f]? = some u := by
          have hlt := Nat.lt_trans hfm (List.getElem?_eq_some_iff.mp hv).1
          rwa [List.getElem?_append_left hlt] at hf
        exact absurd hflush (hbtw f u hgt hfm hf₁)
    obtain ⟨k₁, k₂, rfl, hlenp, hxp, -⟩ := hx₁.of_getElem? hw
    have hfk : k₁[f]? = some u := by
      rwa [List.append_assoc, List.getElem?_append_left (hlenp ▸ hfp)] at hf
    rcases held_or_decided hxp hput hfk with hheld | ⟨d, hfd, hd⟩
    · refine Or.inr ⟨j, p, t₁, hheld, hfp, hlen ▸ hby.put.lt, hby.put.append _, ?_⟩
      exact hexp ▸ hnow
    · exact Or.inl (hanswer hfd (hd.append _))
  · -- the call has asked the engine itself
    obtain ⟨d, hd⟩ := (traced_of_exec hx₁).putting i key r hc
    obtain ⟨v, hv, -, hcall, -⟩ := id hd
    exact Or.inl (hanswer (Nat.lt_trans hfb (lt_of_starts hx hb (hat hv) hcall)) hd)

/-- A call puts its answer after the flush, and the next call returns it. -/
theorem evaluate_settled_overtaken :
    ∃ (h : List (Transition CacheState CacheEvent)) (s : CacheState)
      (u t : Transition CacheState CacheEvent) (r : Result),
      (cacheMachine 0).Exec h s ∧ h[3]? = some u ∧ u.ev = .flush ∧ h[7]? = some t
      ∧ Returns 1 paymentsKey r t
      ∧ ((∃ d v, 3 < d ∧ d < 7 ∧ h[d]? = some v
          ∧ r = s.policy.engine.decide (paymentsKey.query v.pre.now))
        ∨ ∃ j p t₁, u.post.calls[j]? = some ⟨paymentsKey, .put r⟩ ∧ 3 < p ∧ p < 7
          ∧ At h p (Puts j paymentsKey r t₁) ∧ t.pre.now < t₁ + cacheTTL) := by
  obtain ⟨s₀, s₁, s₂, s₃, s₄, s₅, s₆, s₇, s₈, h₀, h₁, h₂, h₃, h₄, h₅, h₆, h₇, h₈, hstart, hpre,
      hpost⟩ : ∃ s₀ s₁ s₂ s₃ s₄ s₅ s₆ s₇ s₈, s₀ = (cacheMachine 0).init
      ∧ (cacheMachine 0).step s₀ (.evaluate paymentsKey) = some s₁
      ∧ (cacheMachine 0).step s₁ (.get 0) = some s₂
      ∧ (cacheMachine 0).step s₂ (.decide 0) = some s₃
      ∧ (cacheMachine 0).step s₃ .flush = some s₄
      ∧ (cacheMachine 0).step s₄ (.put 0 [] [] 0) = some s₅
      ∧ (cacheMachine 0).step s₅ (.evaluate paymentsKey) = some s₆
      ∧ (cacheMachine 0).step s₆ (.get 1) = some s₇
      ∧ (cacheMachine 0).step s₇ (.check 1) = some s₈ ∧ s₅.calls.length = 1
      ∧ s₇.calls[1]? ≠ some ⟨paymentsKey, .done (newEngine.decide (paymentsKey.query 0))⟩
      ∧ s₈.calls[1]? = some ⟨paymentsKey, .done (newEngine.decide (paymentsKey.query 0))⟩ :=
    ⟨_, _, _, _, _, _, _, _, _, rfl, rfl, rfl, rfl, rfl, rfl, rfl, rfl, rfl, rfl, nofun, rfl⟩
  subst h₀
  have hx := (((((((Machine.Exec.nil.snoc h₁).snoc h₂).snoc h₃).snoc h₄).snoc h₅).snoc h₆).snoc
    h₇).snoc h₈
  refine ⟨_, s₈, _, _, _, hx, rfl, rfl, rfl, ⟨hpre, hpost⟩, ?_⟩
  refine evaluate_settled hx (f := 3) (b := 5) (n := 7) rfl rfl ?_ ⟨_, rfl, rfl, hstart⟩
    (by decide) rfl ⟨hpre, hpost⟩
  intro j t _ ht
  rintro ⟨k, hk⟩
  have hmem := List.mem_of_getElem? ht
  simp only [List.nil_append, List.cons_append, List.mem_cons, List.not_mem_nil, or_false] at hmem
  rcases hmem with rfl | rfl | rfl | rfl | rfl | rfl | rfl | rfl <;> cases hk
