import OutRelay.PolicyPublish

/-!
# The decision cache

`evaluate` answers a query from a cache where it can, and otherwise asks the
engine and puts the answer into the cache. An entry lives for `CacheTTL`, an
update of the policy flushes all entries, and an entry that finds the cache full
drops others first. None of this is one critical section: `Get` reads the map,
looks at the clock and deletes an expired entry in three steps, and between
`Decide` and `Put` a policy may change.

What can be said of a hit all the same is where its answer comes from
(`traced_of_exec`). The entry a call has read was put by an earlier call, with the
answer that call had from the engine, and no flush lies between the put and the
read. The look at the clock bounds how long ago that was. The other half of the
module is the bound on the size (`len_le_of_exec`).
-/

/-- `CacheTTL`, in nanoseconds. -/
def cacheTTL : ℤ := 5000000000

/-- `CacheCapacity`. -/
def cacheCapacity : ℕ := 64 * 1024

/-- What the engine is asked for a key; its clock is in milliseconds. -/
def CacheKey.query (key : CacheKey) (now : ℤ) : Query :=
  ⟨key.caller, key.target, key.method, now / 1000000⟩

/-! ## Putting an entry -/

namespace Cache

/-- The first loop of `Put`: drop the expired entries. -/
def dropExpired (c : Cache) (now : ℤ) (order : List (CacheKey × CacheEntry)) : Cache :=
  ⟨c.m.delAll ((order.filter (fun e => ¬ now < e.snd.expires)).map Prod.fst)⟩

/-- The second loop of `Put`: drop an eighth of the capacity, whatever comes
first. -/
def dropSubset (c : Cache) (order : List (CacheKey × CacheEntry)) : Cache :=
  ⟨c.m.delAll ((order.take (cacheCapacity / 8)).map Prod.fst)⟩

/-- The eviction of `Put`, with the orders of its two loops. -/
def evict (c : Cache) (now : ℤ) (first second : List (CacheKey × CacheEntry)) : Option Cache :=
  if c.m.len < cacheCapacity then some c
  else if c.m.RangeOrder first then
    if (c.dropExpired now first).m.len < cacheCapacity then some (c.dropExpired now first)
    else if (c.dropExpired now first).m.RangeOrder second then
      some ((c.dropExpired now first).dropSubset second)
    else none
  else none

/-- `Cache.Put`. It looks at the clock twice, for the eviction and at `t₁` for the
expiry of the new entry. -/
def put (c : Cache) (key : CacheKey) (r : Result) (now : ℤ)
    (first second : List (CacheKey × CacheEntry)) (t₁ : ℤ) : Option Cache :=
  (c.evict now first second).map (fun c => ⟨c.m.set key ⟨r, t₁ + cacheTTL⟩⟩)

variable {c c' : Cache} {key : CacheKey} {r : Result} {now t₁ : ℤ}
variable {first second : List (CacheKey × CacheEntry)}

/-- **An eviction makes room and adds nothing.** -/
theorem of_evict (h : c.evict now first second = some c') :
    (c.m.len ≤ cacheCapacity → c'.m.len < cacheCapacity)
      ∧ ∀ k e, c'.m.get k = some e → c.m.get k = some e := by
  unfold evict at h
  split_ifs at h with hroom hfirst hroom' hsecond
  · cases h
    exact ⟨fun _ => hroom, fun _ _ he => he⟩
  · cases h
    exact ⟨fun _ => hroom', fun _ _ he => (GoMap.of_get_delAll he).1⟩
  · cases h
    constructor
    · intro hle
      have hexpired : (c.dropExpired now first).m.len ≤ c.m.len := GoMap.len_delAll_le _ _
      have hsubset : ((c.dropExpired now first).dropSubset second).m.len
          = (c.dropExpired now first).m.len - cacheCapacity / 8 := hsecond.len_delAll_take _
      have hcap : cacheCapacity = 65536 := rfl
      omega
    · intro k e he
      exact (GoMap.of_get_delAll (GoMap.of_get_delAll he).1).1

theorem len_put_le (hle : c.m.len ≤ cacheCapacity)
    (h : c.put key r now first second t₁ = some c') : c'.m.len ≤ cacheCapacity := by
  obtain ⟨c₁, hevict, rfl⟩ := Option.map_eq_some_iff.mp h
  have hroom := (of_evict hevict).1 hle
  exact Nat.le_trans (GoMap.len_set_le _ _ _) hroom

theorem of_get_put (h : c.put key r now first second t₁ = some c') {k : CacheKey} {e : CacheEntry}
    (he : c'.m.get k = some e) :
    c.m.get k = some e ∨ (k = key ∧ e = ⟨r, t₁ + cacheTTL⟩) := by
  obtain ⟨c₁, hevict, rfl⟩ := Option.map_eq_some_iff.mp h
  rw [GoMap.get_set] at he
  split_ifs at he with hk
  · exact Or.inr ⟨hk, (Option.some.inj he).symm⟩
  · exact Or.inl ((of_evict hevict).2 k e he)

end Cache

/-! ## Calls of `evaluate` -/

/-- Where a call of `evaluate` is: about to read the map, with an entry and about to
look at the clock, about to delete it, about to ask the engine, about to put the
answer, or back. -/
inductive EvalPC
  | get
  | check (e : CacheEntry)
  | expire
  | decide
  | put (r : Result)
  | done (r : Result)

structure EvalCall where
  key : CacheKey
  pc : EvalPC

/-- The engine with its updates under way, the cache, the clock, and the calls of
`evaluate`, oldest first. -/
structure CacheState where
  policy : PublishState
  cache : Cache
  now : ℤ
  calls : List EvalCall

/-- A step of some goroutine: a call starts, or call `i` goes on; a flush; a step of
an update of the engine; or time passes. -/
inductive CacheEvent
  | evaluate (key : CacheKey)
  | get (i : ℕ)
  | check (i : ℕ)
  | expire (i : ℕ)
  | decide (i : ℕ)
  | put (i : ℕ) (first second : List (CacheKey × CacheEntry)) (t₁ : ℤ)
  | flush
  | apply (e : ApplyStep)
  | tick (now : ℤ)

namespace CacheState

/-- Call `i` is now at `c`. -/
def goOn (s : CacheState) (i : ℕ) (c : EvalCall) : CacheState := { s with calls := s.calls.set i c }

def step (s : CacheState) : CacheEvent → Option CacheState
  | .evaluate key => some { s with calls := s.calls ++ [⟨key, .get⟩] }
  | .get i =>
    match s.calls[i]? with
    | some ⟨key, .get⟩ =>
      match s.cache.m.get key with
      | some e => some (s.goOn i ⟨key, .check e⟩)
      | none => some (s.goOn i ⟨key, .decide⟩)
    | _ => none
  | .check i =>
    match s.calls[i]? with
    | some ⟨key, .check e⟩ =>
      if s.now < e.expires then some (s.goOn i ⟨key, .done e.res⟩)
      else some (s.goOn i ⟨key, .expire⟩)
    | _ => none
  | .expire i =>
    match s.calls[i]? with
    | some ⟨key, .expire⟩ => some { s.goOn i ⟨key, .decide⟩ with cache := ⟨s.cache.m.del key⟩ }
    | _ => none
  | .decide i =>
    match s.calls[i]? with
    | some ⟨key, .decide⟩ =>
      some (s.goOn i ⟨key, .put (s.policy.engine.decide (key.query s.now))⟩)
    | _ => none
  | .put i first second t₁ =>
    match s.calls[i]? with
    | some ⟨key, .put r⟩ =>
      if s.now ≤ t₁ then
        (s.cache.put key r s.now first second t₁).map
          (fun c => { s.goOn i ⟨key, .done r⟩ with cache := c, now := t₁ })
      else none
    | _ => none
  | .flush => some { s with cache := s.cache.flush }
  | .apply e => (s.policy.step e).map (fun p => { s with policy := p })
  | .tick now => if s.now ≤ now then some { s with now := now } else none

end CacheState

/-- Any number of calls of `evaluate`, with flushes and updates of the engine between
their steps, from the time `start` on. -/
def cacheMachine (start : ℤ) : Machine CacheState CacheEvent where
  init := ⟨publishMachine.init, ⟨∅⟩, start, []⟩
  step := CacheState.step

/-- **What a step does**, case by case. -/
inductive CacheState.Steps (s : CacheState) : CacheEvent → CacheState → Prop
  | evaluate {key : CacheKey} :
      Steps s (.evaluate key) { s with calls := s.calls ++ [⟨key, .get⟩] }
  | found {i : ℕ} {key : CacheKey} {e : CacheEntry} (hc : s.calls[i]? = some ⟨key, .get⟩)
      (he : s.cache.m.get key = some e) : Steps s (.get i) (s.goOn i ⟨key, .check e⟩)
  | missed {i : ℕ} {key : CacheKey} (hc : s.calls[i]? = some ⟨key, .get⟩)
      (he : s.cache.m.get key = none) : Steps s (.get i) (s.goOn i ⟨key, .decide⟩)
  | hit {i : ℕ} {key : CacheKey} {e : CacheEntry} (hc : s.calls[i]? = some ⟨key, .check e⟩)
      (hnow : s.now < e.expires) : Steps s (.check i) (s.goOn i ⟨key, .done e.res⟩)
  | stale {i : ℕ} {key : CacheKey} {e : CacheEntry} (hc : s.calls[i]? = some ⟨key, .check e⟩)
      (hnow : ¬ s.now < e.expires) : Steps s (.check i) (s.goOn i ⟨key, .expire⟩)
  | expire {i : ℕ} {key : CacheKey} (hc : s.calls[i]? = some ⟨key, .expire⟩) :
      Steps s (.expire i) { s.goOn i ⟨key, .decide⟩ with cache := ⟨s.cache.m.del key⟩ }
  | decide {i : ℕ} {key : CacheKey} (hc : s.calls[i]? = some ⟨key, .decide⟩) :
      Steps s (.decide i) (s.goOn i ⟨key, .put (s.policy.engine.decide (key.query s.now))⟩)
  | put {i : ℕ} {key : CacheKey} {r : Result} {first second : List (CacheKey × CacheEntry)}
      {t₁ : ℤ} {c : Cache} (hc : s.calls[i]? = some ⟨key, .put r⟩) (hnow : s.now ≤ t₁)
      (hput : s.cache.put key r s.now first second t₁ = some c) :
      Steps s (.put i first second t₁) { s.goOn i ⟨key, .done r⟩ with cache := c, now := t₁ }
  | flush : Steps s .flush { s with cache := s.cache.flush }
  | apply {e : ApplyStep} {p : PublishState} (hp : s.policy.step e = some p) :
      Steps s (.apply e) { s with policy := p }
  | tick {now : ℤ} (hnow : s.now ≤ now) : Steps s (.tick now) { s with now := now }

namespace CacheState

variable {s s' : CacheState} {ev : CacheEvent} {i : ℕ} {key : CacheKey}

theorem steps_of_step (h : s.step ev = some s') : s.Steps ev s' := by
  cases ev with
  | evaluate key =>
    cases h
    exact .evaluate
  | get i =>
    simp only [step] at h
    split at h
    · rename_i key hc
      split at h
      · rename_i e he
        cases h
        exact .found hc he
      · rename_i he
        cases h
        exact .missed hc he
    · cases h
  | check i =>
    simp only [step] at h
    split at h
    · rename_i key e hc
      split_ifs at h with hnow
      · cases h
        exact .hit hc hnow
      · cases h
        exact .stale hc hnow
    · cases h
  | expire i =>
    simp only [step] at h
    split at h
    · rename_i key hc
      cases h
      exact .expire hc
    · cases h
  | decide i =>
    simp only [step] at h
    split at h
    · rename_i key hc
      cases h
      exact .decide hc
    · cases h
  | put i first second t₁ =>
    simp only [step] at h
    split at h
    · rename_i key r hc
      split_ifs at h with hnow
      obtain ⟨c, hput, rfl⟩ := Option.map_eq_some_iff.mp h
      exact .put hc hnow hput
    · cases h
  | flush =>
    cases h
    exact .flush
  | apply e =>
    obtain ⟨p, hp, rfl⟩ := Option.map_eq_some_iff.mp h
    exact .apply hp
  | tick now =>
    simp only [step] at h
    split_ifs at h with hnow
    cases h
    exact .tick hnow

/-- The calls after a step of call `i`. -/
theorem of_getElem?_goOn {j : ℕ} {c c' : EvalCall} (h : (s.goOn i c).calls[j]? = some c') :
    (j = i ∧ c' = c) ∨ s.calls[j]? = some c' := by
  have hset : (s.calls.set i c)[j]? = some c' := h
  rw [List.getElem?_set] at hset
  split_ifs at hset with hij hlt
  · exact Or.inl ⟨hij.symm, (Option.some.inj hset).symm⟩
  · exact Or.inr hset

/-- The clock does not run backwards. -/
theorem Steps.now_le (h : s.Steps ev s') : s.now ≤ s'.now := by
  cases h with
  | put _ hnow _ => exact hnow
  | tick hnow => exact hnow
  | _ => exact Int.le_refl _

/-- **What brings an entry into the cache** is the put of its result. -/
theorem Steps.of_cached (h : s.Steps ev s') {e : CacheEntry} (he : s'.cache.m.get key = some e) :
    (s.cache.m.get key = some e ∧ ev ≠ .flush)
      ∨ ∃ j first second t₁, ev = .put j first second t₁ ∧ s.calls[j]? = some ⟨key, .put e.res⟩
        ∧ e.expires = t₁ + cacheTTL ∧ s'.now = t₁ ∧ s'.calls[j]? = some ⟨key, .done e.res⟩ := by
  cases h with
  | flush =>
    have hempty : (∅ : GoMap CacheKey CacheEntry).get key = some e := he
    rw [GoMap.get_empty] at hempty
    cases hempty
  | expire hc => exact Or.inl ⟨(GoMap.of_get_del he).1, CacheEvent.noConfusion⟩
  | @put j key' r first second t₁ c hc hnow hput =>
    rcases Cache.of_get_put hput he with hold | ⟨rfl, rfl⟩
    · exact Or.inl ⟨hold, CacheEvent.noConfusion⟩
    · refine Or.inr ⟨j, first, second, t₁, rfl, hc, rfl, rfl, ?_⟩
      exact List.getElem?_set_self (List.getElem?_eq_some_iff.mp hc).1
  | _ => exact Or.inl ⟨he, CacheEvent.noConfusion⟩

/-- **What a call is about to check** it has read from the map. -/
theorem Steps.of_check (h : s.Steps ev s') {e : CacheEntry}
    (hc' : s'.calls[i]? = some ⟨key, .check e⟩) :
    s.calls[i]? = some ⟨key, .check e⟩
      ∨ (ev = .get i ∧ s.calls[i]? = some ⟨key, .get⟩ ∧ s.cache.m.get key = some e) := by
  cases h with
  | evaluate =>
    rcases of_getElem?_concat hc' with hold | ⟨-, heq⟩
    · exact Or.inl hold
    · cases heq
  | found hc he =>
    rcases of_getElem?_goOn hc' with ⟨rfl, heq⟩ | hold
    · cases heq
      exact Or.inr ⟨rfl, hc, he⟩
    · exact Or.inl hold
  | missed | hit | stale | expire | decide | put =>
    rcases of_getElem?_goOn hc' with ⟨rfl, heq⟩ | hold
    · cases heq
    · exact Or.inl hold
  | flush | apply | tick => exact Or.inl hc'

/-- **What a call is about to put** it has from the engine. -/
theorem Steps.of_put (h : s.Steps ev s') {r : Result}
    (hc' : s'.calls[i]? = some ⟨key, .put r⟩) :
    s.calls[i]? = some ⟨key, .put r⟩
      ∨ (ev = .decide i ∧ s.calls[i]? = some ⟨key, .decide⟩
        ∧ s.policy.engine.decide (key.query s.now) = r) := by
  cases h with
  | evaluate =>
    rcases of_getElem?_concat hc' with hold | ⟨-, heq⟩
    · exact Or.inl hold
    · cases heq
  | decide hc =>
    rcases of_getElem?_goOn hc' with ⟨rfl, heq⟩ | hold
    · cases heq
      exact Or.inr ⟨rfl, hc, rfl⟩
    · exact Or.inl hold
  | found | missed | hit | stale | expire | put =>
    rcases of_getElem?_goOn hc' with ⟨rfl, heq⟩ | hold
    · cases heq
    · exact Or.inl hold
  | flush | apply | tick => exact Or.inl hc'

/-- A call that is back stays back. -/
theorem Steps.done (h : s.Steps ev s') {r : Result} (hc : s.calls[i]? = some ⟨key, .done r⟩) :
    s'.calls[i]? = some ⟨key, .done r⟩ := by
  have hother : ∀ {j : ℕ} {c c' : EvalCall}, s.calls[j]? = some c' → c'.pc ≠ .done r →
      (s.calls.set j c)[i]? = some ⟨key, .done r⟩ := by
    intro j c c' hj hne
    rw [List.getElem?_set_ne]
    · exact hc
    · rintro rfl
      cases hc.symm.trans hj
      exact hne rfl
  cases h with
  | evaluate => exact (List.getElem?_append_left (List.getElem?_eq_some_iff.mp hc).1).trans hc
  | found hj | missed hj | hit hj | stale hj | expire hj | decide hj | put hj =>
    exact hother hj EvalPC.noConfusion
  | flush | apply | tick => exact hc

end CacheState

/-! ## Where an answer comes from -/

section Trace

variable {h : List (Transition CacheState CacheEvent)} {s s' : CacheState} {ev : CacheEvent}
variable {i j p : ℕ} {key : CacheKey} {r : Result} {t₁ start : ℤ}

/-- Call `i` asks the engine, which answers `r`. -/
def Decides (i : ℕ) (key : CacheKey) (r : Result) (t : Transition CacheState CacheEvent) : Prop :=
  t.ev = .decide i ∧ t.pre.calls[i]? = some ⟨key, .decide⟩
    ∧ t.pre.policy.engine.decide (key.query t.pre.now) = r

/-- Call `i` puts `r` at the time `t₁`. -/
def Puts (i : ℕ) (key : CacheKey) (r : Result) (t₁ : ℤ)
    (t : Transition CacheState CacheEvent) : Prop :=
  (∃ first second, t.ev = .put i first second t₁) ∧ t.pre.calls[i]? = some ⟨key, .put r⟩

/-- Call `i` reads the map. -/
def Reads (i : ℕ) (key : CacheKey) (t : Transition CacheState CacheEvent) : Prop :=
  t.ev = .get i ∧ t.pre.calls[i]? = some ⟨key, .get⟩

/-- Call `i` looks at the clock and returns `r`, from the cache. -/
def Hits (i : ℕ) (key : CacheKey) (r : Result) (t : Transition CacheState CacheEvent) : Prop :=
  t.ev = .check i ∧ t.post.calls[i]? = some ⟨key, .done r⟩

/-- Call `j` put `r` at position `p`, having had it from the engine. -/
structure PutBy (h : List (Transition CacheState CacheEvent)) (key : CacheKey) (r : Result)
    (j p : ℕ) (t₁ : ℤ) : Prop where
  decided : ∃ d, d < p ∧ At h d (Decides j key r)
  put : At h p (Puts j key r t₁)

theorem PutBy.append (hp : PutBy h key r j p t₁) (h' : List (Transition CacheState CacheEvent)) :
    PutBy (h ++ h') key r j p t₁ :=
  ⟨hp.decided.imp (fun _ hd => ⟨hd.1, hd.2.append h'⟩), hp.put.append h'⟩

/-- **Every entry is traced**, the ones in the map and the ones that calls have read,
and so is every result about to be put. -/
structure Traced (h : List (Transition CacheState CacheEvent)) (s : CacheState) : Prop where
  cached : ∀ key e, s.cache.m.get key = some e → ∃ j p t₁, PutBy h key e.res j p t₁
    ∧ e.expires = t₁ + cacheTTL ∧ t₁ ≤ s.now ∧ Since h (p + 1) (fun u => u.ev ≠ .flush)
    ∧ s.calls[j]? = some ⟨key, .done e.res⟩
  checking : ∀ i key e, s.calls[i]? = some ⟨key, .check e⟩ → ∃ j p m t₁, j ≠ i
    ∧ PutBy h key e.res j p t₁ ∧ e.expires = t₁ + cacheTTL ∧ t₁ ≤ s.now ∧ p < m
    ∧ At h m (Reads i key) ∧ Between h p m (fun u => u.ev ≠ .flush)
  putting : ∀ i key r, s.calls[i]? = some ⟨key, .put r⟩ → ∃ d, At h d (Decides i key r)

theorem Traced.step (hI : Traced h s) (hstep : s.Steps ev s') :
    Traced (h ++ [⟨s, ev, s'⟩]) s' := by
  have hnow := hstep.now_le
  refine ⟨fun key e he => ?_, fun i key e hc => ?_, fun i key r hc => ?_⟩
  · rcases hstep.of_cached he with
      ⟨hold, hflush⟩ | ⟨j, first, second, t₁, rfl, hput, hexp, ht₁, hdone⟩
    · obtain ⟨j, p, t₁, hby, hexp, hle, hsince, hdone⟩ := hI.cached key e hold
      exact ⟨j, p, t₁, hby.append _, hexp, Int.le_trans hle hnow, hsince.snoc hflush,
        hstep.done hdone⟩
    · obtain ⟨d, hd⟩ := hI.putting j key e.res hput
      refine ⟨j, h.length, t₁, ⟨⟨d, hd.lt, hd.snoc _⟩, ?_⟩, hexp, ht₁.ge, ?_, hdone⟩
      · exact at_length ⟨⟨first, second, rfl⟩, hput⟩
      · exact since_of_length_le (by rw [List.length_append]; exact Nat.le_refl _)
  · rcases hstep.of_check hc with hold | ⟨rfl, hget, he⟩
    · obtain ⟨j, p, m, t₁, hne, hby, hexp, hle, hpm, hread, hbtw⟩ := hI.checking i key e hold
      exact ⟨j, p, m, t₁, hne, hby.append _, hexp, Int.le_trans hle hnow, hpm, hread.snoc _,
        hbtw.append (Nat.le_of_lt hread.lt) _⟩
    · -- the call that put the entry is back, and this one is not
      obtain ⟨j, p, t₁, hby, hexp, hle, hsince, hdone⟩ := hI.cached key e he
      refine ⟨j, p, h.length, t₁, ?_, hby.append _, hexp, Int.le_trans hle hnow, hby.put.lt,
        at_length ⟨rfl, hget⟩, (hsince.between _).append (Nat.le_refl _) _⟩
      rintro rfl
      cases hdone.symm.trans hget
  · rcases hstep.of_put hc with hold | ⟨rfl, hdecide, hr⟩
    · obtain ⟨d, hd⟩ := hI.putting i key r hold
      exact ⟨d, hd.snoc _⟩
    · exact ⟨h.length, at_length ⟨rfl, hdecide, hr⟩⟩

theorem traced_of_exec (hx : (cacheMachine start).Exec h s) : Traced h s := by
  induction hx with
  | nil =>
    refine ⟨fun key e he => ?_, fun i key e hc => ?_, fun i key r hc => ?_⟩
    · have hempty : (∅ : GoMap CacheKey CacheEntry).get key = some e := he
      rw [GoMap.get_empty] at hempty
      cases hempty
    · cases hc
    · cases hc
  | snoc _ hstep ih => exact ih.step (CacheState.steps_of_step hstep)

/-- A call returns from the cache what it has read there, while it has not
expired. -/
theorem CacheState.Steps.of_hit (h : s.Steps (.check i) s')
    (hc' : s'.calls[i]? = some ⟨key, .done r⟩) :
    ∃ e, s.calls[i]? = some ⟨key, .check e⟩ ∧ e.res = r ∧ s.now < e.expires := by
  cases h with
  | @hit _ key' e hc hnow =>
    have hset : (s.calls.set i ⟨key', .done e.res⟩)[i]? = some ⟨key, .done r⟩ := hc'
    rw [List.getElem?_set_self (List.getElem?_eq_some_iff.mp hc).1] at hset
    cases hset
    exact ⟨e, hc, rfl, hnow⟩
  | @stale _ key' e hc hnow =>
    have hset : (s.calls.set i ⟨key', .expire⟩)[i]? = some ⟨key, .done r⟩ := hc'
    rw [List.getElem?_set_self (List.getElem?_eq_some_iff.mp hc).1] at hset
    cases hset

/-! ## The size of the cache -/

/-- **The cache never has more than `CacheCapacity` entries.** -/
theorem len_le_of_exec (hx : (cacheMachine start).Exec h s) :
    s.cache.m.len ≤ cacheCapacity := by
  refine hx.invariant (I := fun s => s.cache.m.len ≤ cacheCapacity) (Nat.zero_le _) ?_
  intro s ev s' _ hle hstep
  cases CacheState.steps_of_step hstep with
  | expire => exact Nat.le_trans (GoMap.len_delAll_le s.cache.m [_]) hle
  | put _ _ hput => exact Cache.len_put_le hle hput
  | flush => exact Nat.zero_le _
  | _ => exact hle

end Trace

/-- **What a hit returns, and how much is kept.** In a run of any calls of `evaluate`,
flushes and updates of the engine, on a clock that does not run backwards: a
result that a call returns from the cache is one that the engine gave an earlier
call for the same key; that call put it less than `CacheTTL` before the look at
the clock, and nothing was flushed between the put and the read of the map. And
in every state the cache is within its capacity. -/
theorem cache_sound {start : ℤ} {h : List (Transition CacheState CacheEvent)} {s : CacheState}
    (hx : (cacheMachine start).Exec h s) :
    (∀ n t i key r, h[n]? = some t → Hits i key r t →
      ∃ j d p m t₁, j ≠ i ∧ d < p ∧ p < m ∧ m < n ∧ At h d (Decides j key r)
        ∧ At h p (Puts j key r t₁) ∧ At h m (Reads i key)
        ∧ Between h p m (fun u => u.ev ≠ .flush)
        ∧ t.pre.now - cacheTTL < t₁ ∧ t₁ ≤ t.pre.now)
    ∧ Machine.Throughout (fun s => s.cache.m.len ≤ cacheCapacity) h s := by
  constructor
  · intro n t i key r ht hhit
    obtain ⟨hev, hdone⟩ := hhit
    obtain ⟨h₁, h₂, rfl, hlen, hx₁, hstep⟩ := hx.of_getElem? ht
    have hsteps := CacheState.steps_of_step hstep
    rw [hev] at hsteps
    obtain ⟨e, hc, rfl, hnow⟩ := hsteps.of_hit hdone
    obtain ⟨j, p, m, t₁, hne, hby, hexp, hle, hpm, hread, hbtw⟩ :=
      (traced_of_exec hx₁).checking i key e hc
    obtain ⟨d, hd, hdecide⟩ := hby.decided
    refine ⟨j, d, p, m, t₁, hne, hd, hpm, hlen ▸ hread.lt, hdecide.append h₂, hby.put.append h₂,
      hread.append h₂, hbtw.append (Nat.le_of_lt hread.lt) h₂, ?_, hle⟩
    omega
  · refine ⟨len_le_of_exec hx, fun t ht => ?_⟩
    obtain ⟨⟨_, hpre⟩, -⟩ := hx.step_of_mem ht
    exact len_le_of_exec hpre

/-- What two callers ask for, one after the other. -/
def paymentsKey : CacheKey := ⟨go "caller", go "svc-payments", []⟩

/-- The second call finds what the first has put, a second later. -/
theorem second_call_hits :
    ∃ h s n t r, (cacheMachine 0).Exec h s ∧ h[n]? = some t ∧ Hits 1 paymentsKey r t
      ∧ ∃ j d p m t₁, j ≠ 1 ∧ d < p ∧ p < m ∧ m < n ∧ At h d (Decides j paymentsKey r)
        ∧ At h p (Puts j paymentsKey r t₁) ∧ At h m (Reads 1 paymentsKey)
        ∧ Between h p m (fun u => u.ev ≠ .flush)
        ∧ t.pre.now - cacheTTL < t₁ ∧ t₁ ≤ t.pre.now := by
  obtain ⟨s, s', hrun, hstep, hdone⟩ :
      ∃ s s', (cacheMachine 0).run
          [.evaluate paymentsKey, .evaluate paymentsKey, .flush, .get 0, .decide 0,
            .put 0 [] [] 0, .get 1, .tick 1000000000] (cacheMachine 0).init = some s
        ∧ (cacheMachine 0).step s (.check 1) = some s'
        ∧ s'.calls[1]?
          = some ⟨paymentsKey, .done (newEngine.decide (paymentsKey.query 0))⟩ :=
    ⟨_, _, rfl, rfl, rfl⟩
  obtain ⟨h, hx, -⟩ := Machine.exec_of_run _ _ hrun
  have hx' := hx.snoc hstep
  have hhit : Hits 1 paymentsKey (newEngine.decide (paymentsKey.query 0))
      ⟨s, .check 1, s'⟩ := ⟨rfl, hdone⟩
  exact ⟨_, _, h.length, _, _, hx', List.getElem?_concat_length, hhit,
    (cache_sound hx').1 _ _ _ _ _ List.getElem?_concat_length hhit⟩
