import OutRelay.Custody
import OutRelay.GoMap
import OutRelay.GoString
import OutRelay.Run

/-!
# The pool and its callers

`Pool` caches one connection per peer relay. `Get` looks the relay up under the
lock, dials without it, and takes it again to install what it has dialed – or,
where another `Get` was faster, to close it and return the other's. `Drop` takes
the connection out of the cache under the lock and closes it afterwards,
without. `Close` closes everything under the lock.

The machine below takes these steps for any number of calls, over any relay ids,
in any order; connections are numbered in the order in which they are dialed,
and `closed` is the log of the pool's calls to `Close` on them. A connection is
in custody throughout (`custody_of_reachable`): it is closed, or cached under
one id, or in the hands of one call – a `Get` that has yet to install it or a
`Drop` that has yet to close it. Where no call is in progress nothing is in
anyone's hands, and the open connections are the cached ones
(`pool_keeps_connections`).
-/

/-- Where a `Get` is: at its lookup, dialing, about to install what it has
dialed, or returned, with a connection or an error. -/
inductive GetPC
  | lookup
  | dial
  | install (c : ℕ)
  | returned (c : Option ℕ)
  deriving DecidableEq

/-- Where a `Drop` is: at its critical section, about to close what it has
removed, or returned. -/
inductive DropPC
  | remove
  | close (c : ℕ)
  | returned
  deriving DecidableEq

/-- A call of one of the two methods that take more than one step. -/
inductive PoolCall
  | get (relayID endpoint : GoString) (pc : GetPC)
  | drop (relayID : GoString) (pc : DropPC)
  deriving DecidableEq

/-- The connection that the call has in its hands: one that it has dialed and not
installed, or removed and not closed. -/
def PoolCall.holds : PoolCall → Option ℕ
  | .get _ _ (.install c) => some c
  | .drop _ (.close c) => some c
  | _ => none

/-- The call has returned. -/
def PoolCall.Returned : PoolCall → Prop
  | .get _ _ pc => ∃ c, pc = .returned c
  | .drop _ pc => pc = .returned

/-- `Pool.conns`, the endpoints of the connections that have been dialed, the
connections that the pool has closed, and the calls. -/
structure PoolCalls where
  conns : GoMap GoString ℕ
  dialed : List GoString
  closed : List ℕ
  calls : List PoolCall

/-- A new call, a step of one, or a `Close`, which visits the cache in the given
order. -/
inductive PoolCallEvent
  | get (relayID endpoint : GoString)
  | drop (relayID : GoString)
  | lookup (k : ℕ)
  | dial (k : ℕ) (ok : Bool)
  | install (k : ℕ)
  | remove (k : ℕ)
  | closeConn (k : ℕ)
  | close (order : List (GoString × ℕ))

namespace PoolCalls

/-- Move call `k` on. -/
def goto (s : PoolCalls) (k : ℕ) (call : PoolCall) : PoolCalls :=
  { s with calls := s.calls.set k call }

/-- One round of the loop of `Close`. -/
def closeRound (s : PoolCalls) (e : GoString × ℕ) : PoolCalls :=
  { s with closed := s.closed ++ [e.snd], conns := s.conns.del e.fst }

def step (s : PoolCalls) : PoolCallEvent → Option PoolCalls
  | .get relayID endpoint => some { s with calls := s.calls ++ [.get relayID endpoint .lookup] }
  | .drop relayID => some { s with calls := s.calls ++ [.drop relayID .remove] }
  | .lookup k =>
    match s.calls[k]? with
    | some (.get relayID endpoint .lookup) =>
      match s.conns.get relayID with
      | some c => some (s.goto k (.get relayID endpoint (.returned (some c))))
      | none => some (s.goto k (.get relayID endpoint .dial))
    | _ => none
  | .dial k ok =>
    match s.calls[k]? with
    | some (.get relayID endpoint .dial) =>
      if ok then
        some (({ s with dialed := s.dialed ++ [endpoint] } : PoolCalls).goto k
          (.get relayID endpoint (.install s.dialed.length)))
      else some (s.goto k (.get relayID endpoint (.returned none)))
    | _ => none
  | .install k =>
    match s.calls[k]? with
    | some (.get relayID endpoint (.install c)) =>
      match s.conns.get relayID with
      | some existing =>
        some (({ s with closed := s.closed ++ [c] } : PoolCalls).goto k
          (.get relayID endpoint (.returned (some existing))))
      | none =>
        some (({ s with conns := s.conns.set relayID c } : PoolCalls).goto k
          (.get relayID endpoint (.returned (some c))))
    | _ => none
  | .remove k =>
    match s.calls[k]? with
    | some (.drop relayID .remove) =>
      let s' : PoolCalls := { s with conns := s.conns.del relayID }
      match s.conns.get relayID with
      | some c => some (s'.goto k (.drop relayID (.close c)))
      | none => some (s'.goto k (.drop relayID .returned))
    | _ => none
  | .closeConn k =>
    match s.calls[k]? with
    | some (.drop relayID (.close c)) =>
      some (({ s with closed := s.closed ++ [c] } : PoolCalls).goto k (.drop relayID .returned))
    | _ => none
  | .close order =>
    if s.conns.RangeOrder order then some (order.foldl closeRound s) else none

end PoolCalls

/-- `NewPool`, and the calls on it. -/
def poolCallsMachine : Machine PoolCalls PoolCallEvent where
  init := { conns := ∅, dialed := [], closed := [], calls := [] }
  step := PoolCalls.step

/-- Where a connection can be. -/
inductive PoolPlace
  | closed
  | cached (relayID : GoString)
  | held (k : ℕ)
  deriving DecidableEq

namespace PoolCalls

variable {s s' : PoolCalls} {e : PoolCallEvent} {k c : ℕ} {relayID endpoint : GoString}

/-- The connection has been dialed. -/
def Dialed (s : PoolCalls) (c : ℕ) : Prop := c < s.dialed.length

/-- **Where connection `c` is.** -/
def Lies (s : PoolCalls) (c : ℕ) : PoolPlace → Prop
  | .closed => c ∈ s.closed
  | .cached relayID => s.conns.get relayID = some c
  | .held k => ∃ call, s.calls[k]? = some call ∧ call.holds = some c

/-! ## What a step does -/

/-- **The steps of the pool**, by where a call is and what it finds. -/
inductive Acts (s : PoolCalls) : PoolCallEvent → PoolCalls → Prop
  | get (relayID endpoint : GoString) :
      Acts s (.get relayID endpoint)
        { s with calls := s.calls ++ [.get relayID endpoint .lookup] }
  | drop (relayID : GoString) :
      Acts s (.drop relayID) { s with calls := s.calls ++ [.drop relayID .remove] }
  | hit {k c : ℕ} {relayID endpoint : GoString} :
      s.calls[k]? = some (.get relayID endpoint .lookup) → s.conns.get relayID = some c →
      Acts s (.lookup k) (s.goto k (.get relayID endpoint (.returned (some c))))
  | miss {k : ℕ} {relayID endpoint : GoString} :
      s.calls[k]? = some (.get relayID endpoint .lookup) → s.conns.get relayID = none →
      Acts s (.lookup k) (s.goto k (.get relayID endpoint .dial))
  | dialed {k : ℕ} {relayID endpoint : GoString} :
      s.calls[k]? = some (.get relayID endpoint .dial) →
      Acts s (.dial k true) (({ s with dialed := s.dialed ++ [endpoint] } : PoolCalls).goto k
        (.get relayID endpoint (.install s.dialed.length)))
  | unreachable {k : ℕ} {relayID endpoint : GoString} :
      s.calls[k]? = some (.get relayID endpoint .dial) →
      Acts s (.dial k false) (s.goto k (.get relayID endpoint (.returned none)))
  | lostRace {k c existing : ℕ} {relayID endpoint : GoString} :
      s.calls[k]? = some (.get relayID endpoint (.install c)) →
      s.conns.get relayID = some existing →
      Acts s (.install k) (({ s with closed := s.closed ++ [c] } : PoolCalls).goto k
        (.get relayID endpoint (.returned (some existing))))
  | installed {k c : ℕ} {relayID endpoint : GoString} :
      s.calls[k]? = some (.get relayID endpoint (.install c)) → s.conns.get relayID = none →
      Acts s (.install k) (({ s with conns := s.conns.set relayID c } : PoolCalls).goto k
        (.get relayID endpoint (.returned (some c))))
  | removed {k c : ℕ} {relayID : GoString} :
      s.calls[k]? = some (.drop relayID .remove) → s.conns.get relayID = some c →
      Acts s (.remove k) (({ s with conns := s.conns.del relayID } : PoolCalls).goto k
        (.drop relayID (.close c)))
  | nothingToDrop {k : ℕ} {relayID : GoString} :
      s.calls[k]? = some (.drop relayID .remove) → s.conns.get relayID = none →
      Acts s (.remove k) (({ s with conns := s.conns.del relayID } : PoolCalls).goto k
        (.drop relayID .returned))
  | dropped {k c : ℕ} {relayID : GoString} :
      s.calls[k]? = some (.drop relayID (.close c)) →
      Acts s (.closeConn k) (({ s with closed := s.closed ++ [c] } : PoolCalls).goto k
        (.drop relayID .returned))
  | closed {order : List (GoString × ℕ)} : s.conns.RangeOrder order →
      Acts s (.close order) (order.foldl closeRound s)

theorem acts_of_step (h : s.step e = some s') : s.Acts e s' := by
  cases e with
  | get relayID endpoint =>
    cases h
    exact .get relayID endpoint
  | drop relayID =>
    cases h
    exact .drop relayID
  | lookup k =>
    simp only [step] at h
    split at h
    · rename_i hk
      split at h <;> cases h
      · exact .hit hk ‹_›
      · exact .miss hk ‹_›
    · cases h
  | dial k ok =>
    simp only [step] at h
    split at h
    · rename_i hk
      split_ifs at h with hok <;> cases h
      · subst hok
        exact .dialed hk
      · rw [Bool.not_eq_true] at hok
        subst hok
        exact .unreachable hk
    · cases h
  | install k =>
    simp only [step] at h
    split at h
    · rename_i hk
      split at h <;> cases h
      · exact .lostRace hk ‹_›
      · exact .installed hk ‹_›
    · cases h
  | remove k =>
    simp only [step] at h
    split at h
    · rename_i hk
      split at h <;> cases h
      · exact .removed hk ‹_›
      · exact .nothingToDrop hk ‹_›
    · cases h
  | closeConn k =>
    simp only [step] at h
    split at h
    · rename_i hk
      cases h
      exact .dropped hk
    · cases h
  | close order =>
    obtain ⟨ho, hs'⟩ := Option.ite_none_right_eq_some.mp h
    cases hs'
    exact .closed ho

/-- `Close` closes what it visits, and empties the cache. -/
theorem foldl_closeRound (order : List (GoString × ℕ)) (s : PoolCalls) :
    order.foldl closeRound s = { s with
      closed := s.closed ++ order.map Prod.snd
      conns := s.conns.delAll (order.map Prod.fst) } := by
  induction order generalizing s with
  | nil => simp [GoMap.delAll]
  | cons e order ih =>
    rw [List.foldl_cons, ih]
    simp [closeRound, GoMap.delAll]

/-- **A whole `Drop`**, with nothing in between. -/
theorem reachable_drop (hs : poolCallsMachine.Reachable s) (relayID : GoString) :
    poolCallsMachine.Reachable { s with
      conns := s.conns.del relayID
      closed := s.closed ++ (s.conns.get relayID).toList
      calls := s.calls ++ [.drop relayID .returned] } := by
  have hnew : (s.calls ++ [PoolCall.drop relayID .remove])[s.calls.length]?
      = some (.drop relayID .remove) := List.getElem?_concat_length
  have hset : ∀ x y : PoolCall, (s.calls ++ [x]).set s.calls.length y = s.calls ++ [y] := by
    intro x y
    rw [List.set_append_right _ _ (Nat.le_refl _), Nat.sub_self]
    rfl
  have hstart := hs.step (e := .drop relayID) rfl
  cases hget : s.conns.get relayID with
  | none =>
    have hremove : poolCallsMachine.step { s with calls := s.calls ++ [.drop relayID .remove] }
        (.remove s.calls.length) = some { s with
          conns := s.conns.del relayID, calls := s.calls ++ [.drop relayID .returned] } := by
      simp only [poolCallsMachine, step, hnew, hget, goto, hset]
    rw [Option.toList_none, List.append_nil]
    exact hstart.step hremove
  | some c =>
    have hremove : poolCallsMachine.step { s with calls := s.calls ++ [.drop relayID .remove] }
        (.remove s.calls.length) = some { s with
          conns := s.conns.del relayID, calls := s.calls ++ [.drop relayID (.close c)] } := by
      simp only [poolCallsMachine, step, hnew, hget, goto, hset]
    have hclose : poolCallsMachine.step { s with
          conns := s.conns.del relayID, calls := s.calls ++ [.drop relayID (.close c)] }
        (.closeConn s.calls.length) = some { s with
          conns := s.conns.del relayID, closed := s.closed ++ [c]
          calls := s.calls ++ [.drop relayID .returned] } := by
      simp only [poolCallsMachine, step, List.getElem?_concat_length, goto, hset]
    exact (hstart.step hremove).step hclose

/-! ## Custody -/

/-- What a call has in its hands. -/
theorem lies_held {call : PoolCall} (hk : s.calls[k]? = some call) :
    s.Lies c (.held k) ↔ call.holds = some c := by
  show (∃ call', s.calls[k]? = some call' ∧ call'.holds = some c) ↔ _
  simp [hk]

/-- What the calls have in their hands after one has moved on. -/
theorem lies_held_goto {call call' : PoolCall} (hk : s.calls[k]? = some call) (j : ℕ) :
    (s.goto k call').Lies c (.held j)
      ↔ if j = k then call'.holds = some c else s.Lies c (.held j) := by
  have hlt := (List.getElem?_eq_some_iff.mp hk).1
  show (∃ x, (s.calls.set k call')[j]? = some x ∧ x.holds = some c) ↔ _
  split_ifs with hj
  · subst hj
    simp [List.getElem?_set_self hlt]
  · rw [List.getElem?_set_ne (Ne.symm hj)]
    rfl

/-- A new call has nothing in its hands. -/
theorem lies_append {call : PoolCall} (hnone : call.holds = none) (c : ℕ) (p : PoolPlace) :
    ({ s with calls := s.calls ++ [call] } : PoolCalls).Lies c p ↔ s.Lies c p := by
  cases p with
  | closed => rfl
  | cached relayID => rfl
  | held k =>
    constructor
    · rintro ⟨call', hk, hc⟩
      rcases of_getElem?_concat hk with hk | ⟨-, rfl⟩
      · exact ⟨call', hk, hc⟩
      · rw [hnone] at hc
        cases hc
    · rintro ⟨call', hk, hc⟩
      refine ⟨call', ?_, hc⟩
      exact (List.getElem?_append_left (List.getElem?_eq_some_iff.mp hk).1).trans hk

/-- A call with empty hands moves on, and takes nothing up. -/
theorem lies_goto {call call' : PoolCall} (hk : s.calls[k]? = some call)
    (hnone : call.holds = none) (hnone' : call'.holds = none) (c : ℕ) (p : PoolPlace) :
    (s.goto k call').Lies c p ↔ s.Lies c p := by
  cases p with
  | closed => rfl
  | cached relayID => rfl
  | held j =>
    rw [lies_held_goto hk]
    split_ifs with hj
    · rw [hj, lies_held hk, hnone, hnone']
    · rfl

/-- **A call closes what it has in its hands.** -/
theorem lies_close {call call' : PoolCall} (hk : s.calls[k]? = some call)
    (hc : call.holds = some c) (hnone : call'.holds = none) (d : ℕ) (p : PoolPlace) :
    (({ s with closed := s.closed ++ [c] } : PoolCalls).goto k call').Lies d p
      ↔ (p = .closed ∧ s.Lies d (.held k)) ∨ (p ≠ .held k ∧ s.Lies d p) := by
  rw [lies_held hk, hc]
  cases p with
  | closed =>
    show d ∈ s.closed ++ [c] ↔ (_ ∧ some c = some d) ∨ (_ ∧ d ∈ s.closed)
    simp [or_comm, eq_comm]
  | cached relayID =>
    show s.conns.get relayID = some d ↔ _ ∨ (_ ∧ s.conns.get relayID = some d)
    simp
  | held j =>
    rw [lies_held_goto (s := { s with closed := s.closed ++ [c] }) hk, hnone]
    show (if j = k then _ else s.Lies d (.held j)) ↔ _
    by_cases hj : j = k <;> simp [hj]

/-- **A call puts what it has in its hands into the cache.** -/
theorem lies_install {call call' : PoolCall} (hk : s.calls[k]? = some call)
    (hc : call.holds = some c) (hnone : call'.holds = none) (hget : s.conns.get relayID = none)
    (d : ℕ) (p : PoolPlace) :
    (({ s with conns := s.conns.set relayID c } : PoolCalls).goto k call').Lies d p
      ↔ (p = .cached relayID ∧ s.Lies d (.held k)) ∨ (p ≠ .held k ∧ s.Lies d p) := by
  rw [lies_held hk, hc]
  cases p with
  | closed =>
    show d ∈ s.closed ↔ _ ∨ (_ ∧ d ∈ s.closed)
    simp
  | cached id =>
    show (s.conns.set relayID c).get id = some d ↔ (_ ∧ _) ∨ (_ ∧ s.conns.get id = some d)
    rw [GoMap.get_set]
    by_cases hid : id = relayID
    · simp [hid, hget]
    · simp [hid]
  | held j =>
    rw [lies_held_goto (s := { s with conns := s.conns.set relayID c }) hk, hnone]
    show (if j = k then _ else s.Lies d (.held j)) ↔ _
    by_cases hj : j = k <;> simp [hj]

/-- **A call takes a connection out of the cache.** -/
theorem lies_remove {call call' : PoolCall} (hk : s.calls[k]? = some call)
    (hnone : call.holds = none) (hget : s.conns.get relayID = call'.holds) (d : ℕ)
    (p : PoolPlace) :
    (({ s with conns := s.conns.del relayID } : PoolCalls).goto k call').Lies d p
      ↔ (p = .held k ∧ s.Lies d (.cached relayID)) ∨ (p ≠ .cached relayID ∧ s.Lies d p) := by
  cases p with
  | closed =>
    show d ∈ s.closed ↔ _ ∨ (_ ∧ d ∈ s.closed)
    simp
  | cached id =>
    show (s.conns.del relayID).get id = some d ↔ _ ∨ (_ ∧ s.conns.get id = some d)
    rw [GoMap.get_del]
    by_cases hid : id = relayID <;> simp [hid]
  | held j =>
    rw [lies_held_goto (s := { s with conns := s.conns.del relayID }) hk]
    show (if j = k then call'.holds = some d else s.Lies d (.held j))
      ↔ (_ ∧ s.conns.get relayID = some d) ∨ _
    by_cases hj : j = k
    · subst hj
      rw [lies_held hk, hnone, hget]
      simp
    · simp [hj]

/-- **`Close` closes what is cached.** -/
theorem lies_closeAll {order : List (GoString × ℕ)} (ho : s.conns.RangeOrder order) (d : ℕ)
    (p : PoolPlace) :
    (order.foldl closeRound s).Lies d p
      ↔ ∃ q, s.Lies d q ∧ (match q with | .cached _ => .closed | q => q) = p := by
  rw [foldl_closeRound, GoMap.delAll_rangeOrder ho]
  have hcached : d ∈ order.map Prod.snd ↔ ∃ relayID, s.Lies d (.cached relayID) := by
    rw [List.mem_map]
    constructor
    · rintro ⟨⟨id, c⟩, hmem, rfl⟩
      exact ⟨id, (ho.mem_iff id c).mp hmem⟩
    · rintro ⟨id, hid⟩
      exact ⟨(id, d), (ho.mem_iff id d).mpr hid, rfl⟩
  cases p with
  | closed =>
    show d ∈ s.closed ++ order.map Prod.snd ↔ _
    rw [List.mem_append, hcached]
    constructor
    · rintro (h | ⟨id, h⟩)
      · exact ⟨.closed, h, rfl⟩
      · exact ⟨.cached id, h, rfl⟩
    · rintro ⟨q, hq, heq⟩
      cases q with
      | closed => exact Or.inl hq
      | cached id => exact Or.inr ⟨id, hq⟩
      | held k => cases heq
  | cached id =>
    constructor
    · intro h
      cases h
    · rintro ⟨q, -, heq⟩
      cases q <;> cases heq
  | held k =>
    constructor
    · exact fun h => ⟨.held k, h, rfl⟩
    · rintro ⟨q, hq, heq⟩
      cases q with
      | closed => cases heq
      | cached id => cases heq
      | held j =>
        cases heq
        exact hq

/-- **A step keeps every connection in one place.** -/
theorem Acts.custody (h : s.Acts e s') (C : Custody s.Dialed s.Lies) :
    Custody s'.Dialed s'.Lies := by
  cases h with
  | get relayID endpoint => exact C.congr (lies_append rfl)
  | drop relayID => exact C.congr (lies_append rfl)
  | hit hk hget => exact C.congr (lies_goto hk rfl rfl)
  | miss hk hget => exact C.congr (lies_goto hk rfl rfl)
  | @dialed k relayID endpoint hk =>
    refine C.add s.dialed.length (.held k) (Nat.lt_irrefl _) (fun c => ?_) fun c p => ?_
    · show c < (s.dialed ++ [endpoint]).length ↔ c < s.dialed.length ∨ c = s.dialed.length
      rw [List.length_append]
      exact Nat.lt_succ_iff_lt_or_eq
    · cases p with
      | closed =>
        show c ∈ s.closed ↔ c ∈ s.closed ∨ _
        simp
      | cached id =>
        show s.conns.get id = some c ↔ s.conns.get id = some c ∨ _
        simp
      | held j =>
        rw [lies_held_goto (s := { s with dialed := s.dialed ++ [endpoint] }) hk]
        show (if j = k then some s.dialed.length = some c else s.Lies c (.held j)) ↔ _
        by_cases hj : j = k
        · subst hj
          rw [lies_held hk]
          simp [PoolCall.holds, eq_comm]
        · simp [hj]
  | unreachable hk => exact C.congr (lies_goto hk rfl rfl)
  | lostRace hk hget => exact C.move (lies_close hk rfl rfl)
  | installed hk hget => exact C.move (lies_install hk rfl rfl hget)
  | removed hk hget => exact C.move (lies_remove hk rfl hget)
  | nothingToDrop hk hget => exact C.move (lies_remove hk rfl hget)
  | dropped hk => exact C.move (lies_close hk rfl rfl)
  | @closed order ho =>
    have hdialed : (order.foldl closeRound s).Dialed = s.Dialed := by
      rw [foldl_closeRound]
      rfl
    rw [hdialed]
    exact C.relocate _ (lies_closeAll ho)

/-- A connection in a call's hands has not been closed. -/
theorem notMem_closed {call : PoolCall} (C : Custody s.Dialed s.Lies)
    (hk : s.calls[k]? = some call) (hc : call.holds = some c) : c ∉ s.closed := by
  intro hmem
  cases C.unique c .closed (.held k) hmem ((lies_held hk).mpr hc)

/-- **No connection is closed twice.** -/
theorem Acts.nodup_closed (h : s.Acts e s') (C : Custody s.Dialed s.Lies)
    (hn : s.closed.Nodup) : s'.closed.Nodup := by
  have hconcat : ∀ {c}, c ∉ s.closed → (s.closed ++ [c]).Nodup := fun hc =>
    List.nodup_append_comm.mp (List.nodup_cons.mpr ⟨hc, hn⟩)
  cases h with
  | lostRace hk hget => exact hconcat (notMem_closed C hk rfl)
  | dropped hk => exact hconcat (notMem_closed C hk rfl)
  | @closed order ho =>
    rw [foldl_closeRound]
    refine hn.append ?_ fun c hclosed hcached => ?_
    · refine List.Nodup.map_on ?_ (List.Nodup.of_map _ ho.nodup)
      rintro ⟨id, c⟩ hx ⟨id', c'⟩ hy rfl
      have hplace := C.unique c (.cached id) (.cached id') ((ho.mem_iff id c).mp hx)
        ((ho.mem_iff id' c).mp hy)
      cases hplace
      rfl
    · obtain ⟨⟨id, c'⟩, hmem, rfl⟩ := List.mem_map.mp hcached
      cases C.unique c' .closed (.cached id) hclosed ((ho.mem_iff id c').mp hmem)
  | get relayID endpoint => exact hn
  | drop relayID => exact hn
  | hit hk hget => exact hn
  | miss hk hget => exact hn
  | dialed hk => exact hn
  | unreachable hk => exact hn
  | installed hk hget => exact hn
  | removed hk hget => exact hn
  | nothingToDrop hk hget => exact hn

/-- **Custody, and a log without repetitions**, in every state. -/
theorem custody_of_reachable (hs : poolCallsMachine.Reachable s) :
    Custody s.Dialed s.Lies ∧ s.closed.Nodup := by
  refine hs.invariant (I := fun s => Custody s.Dialed s.Lies ∧ s.closed.Nodup) ⟨?_, List.nodup_nil⟩
    fun _ I h => ⟨(acts_of_step h).custody I.1, (acts_of_step h).nodup_closed I.1 I.2⟩
  have hnone : ∀ c p, ¬ poolCallsMachine.init.Lies c p := by
    intro c p hp
    cases p with
    | closed => cases hp
    | cached relayID => cases hp
    | held k =>
      obtain ⟨call, hk, -⟩ := hp
      cases hk
  exact ⟨fun c hc => absurd hc (Nat.not_lt_zero c), fun c p hp => absurd hp (hnone c p),
    fun c p _ hp => absurd hp (hnone c p)⟩

/-! ## What a `Get` returns -/

/-- The calls after one has moved on. -/
theorem calls_goto {call call' : PoolCall} {j : ℕ} (h : (s.goto j call').calls[k]? = some call) :
    s.calls[k]? = some call ∨ (k = j ∧ call = call') := by
  have hset : (s.calls.set j call')[k]? = some call := h
  rw [List.getElem?_set] at hset
  split_ifs at hset with hj hlt
  · cases hset
    exact Or.inr ⟨hj.symm, rfl⟩
  · exact Or.inl hset

/-- **A `Get` returns what is cached at its step**: at the lookup that finds it,
or at the installation. -/
theorem Acts.returned (h : s.Acts e s')
    (hk : s'.calls[k]? = some (.get relayID endpoint (.returned (some c)))) :
    s.calls[k]? = some (.get relayID endpoint (.returned (some c)))
      ∨ (((e = .lookup k ∧ s.conns.get relayID = some c) ∨ e = .install k)
        ∧ s'.conns.get relayID = some c) := by
  cases h with
  | get relayID endpoint =>
    rcases of_getElem?_concat hk with hk | ⟨-, heq⟩
    · exact Or.inl hk
    · cases heq
  | drop relayID =>
    rcases of_getElem?_concat hk with hk | ⟨-, heq⟩
    · exact Or.inl hk
    · cases heq
  | hit hj hget =>
    rcases calls_goto hk with hk | ⟨rfl, heq⟩
    · exact Or.inl hk
    · cases heq
      exact Or.inr ⟨Or.inl ⟨rfl, hget⟩, hget⟩
  | lostRace hj hget =>
    rcases calls_goto hk with hk | ⟨rfl, heq⟩
    · exact Or.inl hk
    · cases heq
      exact Or.inr ⟨Or.inr rfl, hget⟩
  | installed hj hget =>
    rcases calls_goto hk with hk | ⟨rfl, heq⟩
    · exact Or.inl hk
    · cases heq
      exact Or.inr ⟨Or.inr rfl, GoMap.get_set_self _ _ _⟩
  | @closed order ho =>
    rw [foldl_closeRound] at hk
    exact Or.inl hk
  | miss hj hget => exact Or.inl ((calls_goto hk).resolve_right fun h => nomatch h.2)
  | dialed hj => exact Or.inl ((calls_goto hk).resolve_right fun h => nomatch h.2)
  | unreachable hj => exact Or.inl ((calls_goto hk).resolve_right fun h => nomatch h.2)
  | removed hj hget => exact Or.inl ((calls_goto hk).resolve_right fun h => nomatch h.2)
  | nothingToDrop hj hget => exact Or.inl ((calls_goto hk).resolve_right fun h => nomatch h.2)
  | dropped hj => exact Or.inl ((calls_goto hk).resolve_right fun h => nomatch h.2)

/-- The step at which a `Get` has returned. -/
theorem returned_of_exec {h : List (Transition PoolCalls PoolCallEvent)}
    (hx : poolCallsMachine.Exec h s)
    (hk : s.calls[k]? = some (.get relayID endpoint (.returned (some c)))) :
    ∃ t ∈ h, ((t.ev = .lookup k ∧ t.pre.conns.get relayID = some c) ∨ t.ev = .install k)
      ∧ t.post.calls[k]? = some (.get relayID endpoint (.returned (some c)))
      ∧ t.post.conns.get relayID = some c := by
  induction hx with
  | nil => cases hk
  | snoc hx he ih =>
    rcases (acts_of_step he).returned hk with hold | ⟨hev, hget⟩
    · obtain ⟨t, ht, hspec⟩ := ih hold
      exact ⟨t, List.mem_append_left _ ht, hspec⟩
    · exact ⟨_, List.mem_append_right _ (List.mem_singleton_self _), hev, hk, hget⟩

end PoolCalls

/-- **The pool neither leaks nor duplicates connections.** In every run: where no
call is in progress, the connections that have been dialed and not closed are
those in the cache, and none is cached under two ids; no connection is closed
twice; and a `Get` that returns a connection returned the one that was cached
under its relay id right after its lookup, if that found one, or its
installation. -/
theorem pool_keeps_connections {h : List (Transition PoolCalls PoolCallEvent)} {s : PoolCalls}
    (hx : poolCallsMachine.Exec h s) :
    ((∀ call ∈ s.calls, call.Returned) →
      (∀ c, (c < s.dialed.length ∧ c ∉ s.closed) ↔ ∃ relayID, s.conns.get relayID = some c)
      ∧ ∀ relayID relayID' c, s.conns.get relayID = some c → s.conns.get relayID' = some c →
        relayID = relayID')
    ∧ s.closed.Nodup
    ∧ ∀ (k : ℕ) (relayID endpoint : GoString) (c : ℕ),
      s.calls[k]? = some (.get relayID endpoint (.returned (some c))) →
        ∃ t ∈ h, ((t.ev = .lookup k ∧ t.pre.conns.get relayID = some c) ∨ t.ev = .install k)
          ∧ t.post.calls[k]? = some (.get relayID endpoint (.returned (some c)))
          ∧ t.post.conns.get relayID = some c := by
  obtain ⟨C, hnodup⟩ := PoolCalls.custody_of_reachable ⟨h, hx⟩
  refine ⟨fun hquiet => ⟨fun c => ⟨?_, ?_⟩, ?_⟩, hnodup, fun k relayID endpoint c hk => ?_⟩
  · rintro ⟨hc, hopen⟩
    obtain ⟨p, hp⟩ := C.total c hc
    cases p with
    | closed => exact absurd hp hopen
    | cached relayID => exact ⟨relayID, hp⟩
    | held k =>
      -- a call that has returned has nothing in its hands
      obtain ⟨call, hk, hheld⟩ := hp
      have hret := hquiet call (List.mem_of_getElem? hk)
      cases call with
      | get relayID endpoint pc =>
        obtain ⟨r, rfl⟩ := hret
        cases hheld
      | drop relayID pc =>
        cases hret
        cases hheld
  · rintro ⟨relayID, hget⟩
    refine ⟨C.valid c (.cached relayID) hget, fun hclosed => ?_⟩
    cases C.unique c .closed (.cached relayID) hclosed hget
  · intro relayID relayID' c hget hget'
    cases C.unique c (.cached relayID) (.cached relayID') hget hget'
    rfl
  · exact PoolCalls.returned_of_exec hx hk

/-- Two `Get`s miss and dial, the second installs first, and a `Drop` of another
relay finds nothing. -/
def racingGets : List PoolCallEvent :=
  [.get (go "r2") (go "10.0.0.2:7443"), .get (go "r2") (go "10.0.0.2:7443"), .lookup 0, .lookup 1,
    .dial 0 true, .dial 1 true, .install 1, .drop (go "r3"), .install 0, .remove 2]

/-- The connection that came second is closed, the other is cached, and both
`Get`s have returned it. -/
theorem racing_gets_share_connection :
    ∃ (h : List (Transition PoolCalls PoolCallEvent)) (s : PoolCalls),
      poolCallsMachine.Exec h s ∧ h.map Transition.ev = racingGets
        ∧ s.dialed.length = 2 ∧ s.closed = [0]
        ∧ (∃ relayID, s.conns.get relayID = some 1)
        ∧ (∃ t ∈ h, (t.ev = .lookup 0 ∨ t.ev = .install 0)
          ∧ t.post.conns.get (go "r2") = some 1) := by
  obtain ⟨s, hrun, hcalls, hdialed, hclosed⟩ : ∃ s,
      poolCallsMachine.run racingGets poolCallsMachine.init = some s
      ∧ s.calls = [.get (go "r2") (go "10.0.0.2:7443") (.returned (some 1)),
        .get (go "r2") (go "10.0.0.2:7443") (.returned (some 1)), .drop (go "r3") .returned]
      ∧ s.dialed.length = 2 ∧ s.closed = [0] := ⟨_, rfl, rfl, rfl, rfl⟩
  obtain ⟨h, hx, hev⟩ := Machine.exec_of_run _ _ hrun
  obtain ⟨hquiet, -, hreturned⟩ := pool_keeps_connections hx
  have hret : ∀ call ∈ s.calls, call.Returned := by
    rw [hcalls]
    simp [PoolCall.Returned]
  refine ⟨h, s, hx, hev, hdialed, hclosed, ?_, ?_⟩
  · refine ((hquiet hret).1 1).mp ⟨?_, ?_⟩
    · rw [hdialed]
      decide
    · rw [hclosed]
      decide
  · have hfirst : s.calls[0]?
        = some (.get (go "r2") (go "10.0.0.2:7443") (.returned (some 1))) := by
      rw [hcalls]
      rfl
    obtain ⟨t, ht, hstep, -, hget⟩ := hreturned 0 _ _ 1 hfirst
    exact ⟨t, ht, hstep.imp_left And.left, hget⟩
