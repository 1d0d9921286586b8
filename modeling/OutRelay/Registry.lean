import OutRelay.PlaneBinding

/-!
# Connections of agents

An agent that connects completes `HELLO`, and `serveConn` enters its
connection in the registry, the map from agent URI to connection through
which the relay finds the provider of a stream (`LookupAgent`). When the
connection ends, the deferred teardown of `serveConn` removes the entry, tells
the controller to drop the services of the agent (`DeregisterAgent`) and
releases the agent's allocations on the forwarding plane (`ForgetAgent`). All
three are keyed by the URI.

An agent that loses its connection dials again, and its new connection often
completes `HELLO` before the relay notices that the old one is dead. Both then
carry the same URI, and the teardown of the old one acts on what now belongs to
the new one.

The machine below runs any number of connections, each going through the steps
of `serveConn`, together with the forwarding plane. Connections are numbered
in the order in which they register. `issuedAt` is not in the source: it
records, per allocation id, how many connections had registered when the
allocation was issued.
-/

/-- The URI of a connected agent. `serveConn` serves only connections whose
URI `identity.Parse` accepts, and it does not accept an empty one. -/
def AgentURI : Type := { uri : GoString // uri ≠ [] }

/-- What the relay reads of a parsed identity: the tenant, and whether the role
is that of a relay. -/
structure Identity where
  tenant : GoString
  isRelay : Bool

/-- The relay's id, `identity.Parse`, and whether the relay has a forwarding
plane. -/
structure RelayConfig where
  relayID : GoString
  parse : GoString → Option Identity
  forward : Bool

/-- `tenantOf`: the tenant of a URI, empty where the URI does not parse. -/
def RelayConfig.tenantOf (cfg : RelayConfig) (uri : GoString) : GoString :=
  match cfg.parse uri with
  | none => []
  | some n => n.tenant

/-- Where the goroutine of a connection is: after `RegisterAgent`, after
`trackAgent`, and after each step of the teardown – `untrackAgent`, the
deletion in `UnregisterAgent`, its call to the controller, `ForgetAgent`. -/
inductive ServePC
  | registered
  | serving
  | untracked
  | unregistered
  | deregistered
  | closed
  deriving DecidableEq

/-- The teardown has not reached the registry. -/
def ServePC.live : ServePC → Bool
  | .registered | .serving | .untracked => true
  | .unregistered | .deregistered | .closed => false

/-- The connection of an agent, `AgentConn`. -/
structure AgentLink where
  uri : AgentURI
  pc : ServePC

/-- `DeregisterAgentRequest`. -/
structure DeregisterRequest where
  tenant : GoString
  agentURI : GoString
  relayID : GoString
  deriving DecidableEq

/-- The registry's `agentConns`, the server's `agents`, the requests sent to
the controller, the connections, and the plane. -/
structure RelayState where
  agentConns : GoMap GoString ℕ
  agents : Finset ℕ
  requests : List DeregisterRequest
  links : List AgentLink
  forward : PlaneState
  issuedAt : GoMap UInt32 ℕ

/-- A step of `serveConn` for one connection, or an operation of the plane. -/
inductive RelayEvent
  | register (uri : AgentURI)
  | track (i : ℕ)
  | untrack (i : ℕ)
  | unregister (i : ℕ)
  | deregister (i : ℕ)
  | forgetAgent (i : ℕ) (order : List UInt32)
  | plane (e : PlaneEvent)

/-- The connections that an event makes: `RegisterAgent` makes one. -/
def RelayEvent.registers : RelayEvent → ℕ
  | .register _ => 1
  | _ => 0

namespace RelayState

/-- `LookupAgent`. -/
def lookupAgent (s : RelayState) (uri : GoString) : Option ℕ := s.agentConns.get uri

/-- The agent of a connection whose control loop and handlers have been started:
`serveConn` starts them after `trackAgent`. They may run on when it tears the
connection down. -/
def loopAgent (s : RelayState) (i : ℕ) : Option AgentURI :=
  (s.links[i]?).bind (fun link => if link.pc = .registered then none else some link.uri)

/-- Set where the goroutine of connection `i` is. -/
def setPC (s : RelayState) (i : ℕ) (pc : ServePC) : RelayState :=
  { s with links := s.links.modify i (fun l => { l with pc := pc }) }

/-- Move connection `i` from `src` to `dst`. -/
def advance (s : RelayState) (i : ℕ) (src dst : ServePC)
    (act : AgentURI → RelayState → RelayState) : Option RelayState :=
  (s.links[i]?).bind (fun link =>
    if link.pc = src then some (act link.uri (s.setPC i dst)) else none)

/-- The call of `UnregisterAgent` to the controller, which is left out where
the URI has no tenant. -/
def deregisterAgent (cfg : RelayConfig) (uri : GoString) (s : RelayState) : RelayState :=
  if cfg.tenantOf uri = [] then s
  else { s with requests := s.requests ++ [⟨cfg.tenantOf uri, uri, cfg.relayID⟩] }

/-- An operation of the plane other than `ForgetAgent`, which only `serveConn`
calls. -/
def planeStep (s : RelayState) : PlaneEvent → Option RelayState
  | .forgetAgent _ _ => none
  | .allocate uri now => (s.forward.step (.allocate uri now)).map (fun f =>
      { s with
        forward := f
        issuedAt := s.issuedAt.set (Plane.nextAllocID s.forward.plane.nextID) s.links.length })
  | e => (s.forward.step e).map (fun f => { s with forward := f })

def step (cfg : RelayConfig) (s : RelayState) : RelayEvent → Option RelayState
  | .register uri =>
    match cfg.parse uri.val with
    | none => none
    | some n =>
      -- a relay's connection is served by `servePeerRelay`
      if n.isRelay then none
      else some { s with
        agentConns := s.agentConns.set uri.val s.links.length
        links := s.links ++ [⟨uri, .registered⟩] }
  | .track i => s.advance i .registered .serving (fun _ s => { s with agents := insert i s.agents })
  | .untrack i =>
    s.advance i .serving .untracked (fun _ s => { s with agents := s.agents.erase i })
  | .unregister i =>
    s.advance i .untracked .unregistered
      (fun uri s => { s with agentConns := s.agentConns.del uri.val })
  | .deregister i =>
    s.advance i .unregistered .deregistered (fun uri s => s.deregisterAgent cfg uri.val)
  | .forgetAgent i order =>
    (s.links[i]?).bind (fun link =>
      if link.pc ≠ .deregistered then none
      else if cfg.forward then
        (s.forward.step (.forgetAgent link.uri.val order)).map
          (fun f => { s.setPC i .closed with forward := f })
      else some (s.setPC i .closed))
  | .plane e => if cfg.forward then s.planeStep e else none

end RelayState

/-- The relay from its start, with a fresh plane. -/
def relayMachine (cfg : RelayConfig) (idleTTL pendingTTL start : Time) :
    Machine RelayState RelayEvent where
  init :=
    { agentConns := ∅, agents := ∅, requests := [], links := [],
      forward := ⟨Plane.newPlane idleTTL pendingTTL, start⟩, issuedAt := ∅ }
  step := RelayState.step cfg

namespace RelayState

/-! ## Reconnect safety -/

/-- Connection `i` is one of the agent `uri`, and its teardown has not reached
the registry. -/
def Live (s : RelayState) (i : ℕ) (uri : GoString) : Prop :=
  ∃ link, s.links[i]? = some link ∧ link.uri.val = uri ∧ link.pc.live = true

/-- **The registry is right**: it names the agent's most recently registered
live connection, and it names one where there is one. -/
structure LookupOK (s : RelayState) : Prop where
  latest : ∀ uri i, s.lookupAgent uri = some i → s.Live i uri ∧ ∀ j, s.Live j uri → j ≤ i
  found : ∀ uri j, s.Live j uri → ∃ i, s.lookupAgent uri = some i

/-- Allocation `id`, which the agent owns, was issued after connection `j` had
registered. -/
def IssuedSince (s : RelayState) (j : ℕ) (uri : GoString) (id : UInt32) : Prop :=
  (∃ entry, s.forward.plane.byAlloc.get id = some entry ∧ entry.uri = uri)
    ∧ ∃ n, s.issuedAt.get id = some n ∧ j < n

/-- **The step spares the newer connections of the agent**: a call to the
controller is made, and an allocation that was issued after connection `j` had
registered is released, only where `j` is not live. -/
structure Spares (t : Transition RelayState RelayEvent) : Prop where
  services : ∀ i link, t.ev = .deregister i → t.pre.links[i]? = some link →
    t.post.requests ≠ t.pre.requests → ∀ j, i < j → ¬ t.pre.Live j link.uri.val
  allocations : ∀ i order link, t.ev = .forgetAgent i order → t.pre.links[i]? = some link →
    ∀ j id, i < j → t.pre.IssuedSince j link.uri.val id →
      t.post.forward.plane.byAlloc.get id = none → ¬ t.pre.Live j link.uri.val

/-- **The teardown is in order.** The registry entry is removed while no other
connection of the agent is live. The controller is called, for a URI with a
tenant, while no newer one is. The allocations are released while no newer one
is, or where the plane has issued the agent none since it registered. -/
def InOrder (cfg : RelayConfig) (s : RelayState) : RelayEvent → Prop
  | .unregister i => ∀ link, s.links[i]? = some link → ∀ j, s.Live j link.uri.val → j = i
  | .deregister i => ∀ link, s.links[i]? = some link → cfg.tenantOf link.uri.val ≠ [] →
      ∀ j, s.Live j link.uri.val → j ≤ i
  | .forgetAgent i _ => ∀ link, s.links[i]? = some link → cfg.forward = true →
      ∀ j, i < j → s.Live j link.uri.val →
        ∀ id ∈ (s.forward.plane.byURI.get link.uri.val).getD ∅, ¬ s.IssuedSince j link.uri.val id
  | _ => True

/-! ## What a step does -/

variable {cfg : RelayConfig} {s s' : RelayState} {e : RelayEvent} {i j : ℕ} {link : AgentLink}
  {uri : GoString}

theorem advance_eq_some {src dst : ServePC} {act : AgentURI → RelayState → RelayState}
    (h : s.advance i src dst act = some s') :
    ∃ link, s.links[i]? = some link ∧ link.pc = src ∧ s' = act link.uri (s.setPC i dst) := by
  obtain ⟨link, hi, h⟩ := Option.bind_eq_some_iff.mp h
  split_ifs at h with hpc
  cases h
  exact ⟨link, hi, hpc, rfl⟩

/-- The live connections after one has moved on. -/
theorem live_setPC {pc : ServePC} (hi : s.links[i]? = some link) :
    (s.setPC i pc).Live j uri
      ↔ (j = i ∧ link.uri.val = uri ∧ pc.live = true) ∨ (j ≠ i ∧ s.Live j uri) := by
  unfold Live setPC
  rw [List.getElem?_modify]
  by_cases hj : j = i
  · subst hj
    rw [hi]
    simp
  · simp [hj, Ne.symm hj]

/-- A move that changes no liveness. -/
theorem live_setPC_of_eq {pc : ServePC} (hi : s.links[i]? = some link)
    (hpc : pc.live = link.pc.live) : (s.setPC i pc).Live j uri ↔ s.Live j uri := by
  rw [live_setPC hi, hpc]
  by_cases hj : j = i
  · subst hj
    simp [Live, hi]
  · simp [hj]

/-- The live connections after a new one has registered. -/
theorem live_register {u : AgentURI} {m : GoMap GoString ℕ} :
    ({ s with agentConns := m, links := s.links ++ [⟨u, .registered⟩] } : RelayState).Live j uri
      ↔ (j = s.links.length ∧ u.val = uri) ∨ s.Live j uri := by
  unfold Live
  rcases Nat.lt_trichotomy j s.links.length with hlt | rfl | hgt
  · rw [List.getElem?_append_left hlt]
    simp [Nat.ne_of_lt hlt]
  · rw [List.getElem?_concat_length, List.getElem?_eq_none (Nat.le_refl _)]
    simp [ServePC.live]
  · rw [List.getElem?_eq_none (by rw [List.length_append]; exact hgt),
      List.getElem?_eq_none (Nat.le_of_lt hgt)]
    simp [Nat.ne_of_gt hgt]

theorem Live.lt (hl : s.Live j uri) : j < s.links.length := by
  obtain ⟨_, hj, -⟩ := hl
  exact (List.getElem?_eq_some_iff.mp hj).1

/-- An operation of the plane leaves the connections alone. -/
theorem planeStep_eq {e : PlaneEvent} (h : s.planeStep e = some s') :
    s'.agentConns = s.agentConns ∧ s'.links = s.links := by
  cases e with
  | forgetAgent uri order => cases h
  | _ =>
    simp only [planeStep, Option.map_eq_some_iff] at h
    obtain ⟨f, -, rfl⟩ := h
    exact ⟨rfl, rfl⟩

/-- The last step of a teardown: `ForgetAgent`, where there is a plane. -/
theorem step_forgetAgent {order : List UInt32} (h : s.step cfg (.forgetAgent i order) = some s') :
    ∃ link f, s.links[i]? = some link ∧ link.pc = .deregistered
      ∧ s' = { s.setPC i .closed with forward := f }
      ∧ ((cfg.forward = true ∧ s.forward.plane.SetOrder link.uri.val order
          ∧ f.plane = (s.forward.plane.forgetAgent link.uri.val order).fst)
        ∨ (cfg.forward = false ∧ f = s.forward)) := by
  simp only [step] at h
  obtain ⟨link, hi, h⟩ := Option.bind_eq_some_iff.mp h
  split_ifs at h with hpc hfwd
  · obtain ⟨f, hf, rfl⟩ := Option.map_eq_some_iff.mp h
    simp only [PlaneState.step] at hf
    split_ifs at hf with ho
    cases hf
    exact ⟨link, _, hi, not_not.mp hpc, rfl, Or.inl ⟨hfwd, ho, rfl⟩⟩
  · cases h
    exact ⟨link, s.forward, hi, not_not.mp hpc, rfl, Or.inr ⟨Bool.eq_false_iff.mpr hfwd, rfl⟩⟩

/-- A call to the controller touches the requests only. -/
theorem deregisterAgent_eq (cfg : RelayConfig) (uri : GoString) (s : RelayState) :
    (s.deregisterAgent cfg uri).agentConns = s.agentConns
      ∧ (s.deregisterAgent cfg uri).links = s.links
      ∧ ((s.deregisterAgent cfg uri).requests ≠ s.requests ↔ cfg.tenantOf uri ≠ []) := by
  unfold deregisterAgent
  split_ifs with h
  · exact ⟨rfl, rfl, by simp [h]⟩
  · exact ⟨rfl, rfl, by simp [h]⟩

/-- **What a step does to the connections**: one comes, one moves on, or
nothing. -/
theorem links_eq (h : s.step cfg e = some s') :
    (∃ u, e = .register u ∧ s'.links = s.links ++ [⟨u, .registered⟩])
      ∨ (e.registers = 0 ∧ (s'.links = s.links ∨ ∃ i pc, s'.links = (s.setPC i pc).links)) := by
  cases e with
  | register u =>
    simp only [step] at h
    split at h
    · cases h
    · split_ifs at h
      cases h
      exact Or.inl ⟨u, rfl, rfl⟩
  | deregister i =>
    simp only [step] at h
    obtain ⟨_, -, -, rfl⟩ := advance_eq_some h
    exact Or.inr ⟨rfl, Or.inr ⟨i, _, (deregisterAgent_eq cfg _ _).2.1⟩⟩
  | forgetAgent i order =>
    obtain ⟨_, f, -, -, rfl, -⟩ := step_forgetAgent h
    exact Or.inr ⟨rfl, Or.inr ⟨i, _, rfl⟩⟩
  | plane pe =>
    simp only [step] at h
    split_ifs at h
    exact Or.inr ⟨rfl, Or.inl (planeStep_eq h).2⟩
  | _ =>
    simp only [step] at h
    obtain ⟨_, -, -, rfl⟩ := advance_eq_some h
    exact Or.inr ⟨rfl, Or.inr ⟨_, _, rfl⟩⟩

/-- A connection stays that of its agent. -/
theorem links_step (h : s.step cfg e = some s') (hj : s.links[j]? = some link) :
    ∃ link', s'.links[j]? = some link' ∧ link'.uri = link.uri := by
  rcases links_eq h with ⟨u, -, hlinks⟩ | ⟨-, hlinks | ⟨i, pc, hlinks⟩⟩
  · rw [hlinks]
    exact ⟨link, by rw [List.getElem?_append_left (List.getElem?_eq_some_iff.mp hj).1, hj], rfl⟩
  · rw [hlinks]
    exact ⟨link, hj, rfl⟩
  · rw [hlinks]
    unfold setPC
    rw [List.getElem?_modify, hj]
    by_cases hij : i = j
    · exact ⟨{ link with pc := pc }, by simp [hij], rfl⟩
    · exact ⟨link, by simp [hij], rfl⟩

/-- A connection is never forgotten. -/
theorem links_length_step (h : s.step cfg e = some s') :
    s'.links.length = s.links.length + e.registers := by
  rcases links_eq h with ⟨u, rfl, hlinks⟩ | ⟨he, hlinks | ⟨i, pc, hlinks⟩⟩
  · rw [hlinks]
    exact List.length_append
  · rw [hlinks, he]
    rfl
  · rw [hlinks, he]
    exact List.length_modify _ _ _

/-- The plane takes at most one step of its own. -/
theorem step_forward (h : s.step cfg e = some s') :
    s'.forward = s.forward
      ∨ ∃ pe, s.forward.step pe = some s'.forward ∧ (pe.isAllocate = true → e = .plane pe) := by
  cases e with
  | register u =>
    simp only [step] at h
    split at h
    · cases h
    · split_ifs at h
      cases h
      exact Or.inl rfl
  | deregister i =>
    simp only [step] at h
    obtain ⟨link, -, -, rfl⟩ := advance_eq_some h
    unfold deregisterAgent
    split_ifs
    · exact Or.inl rfl
    · exact Or.inl rfl
  | forgetAgent i order =>
    simp only [step] at h
    obtain ⟨link, -, h⟩ := Option.bind_eq_some_iff.mp h
    split_ifs at h
    · obtain ⟨f, hf, rfl⟩ := Option.map_eq_some_iff.mp h
      exact Or.inr ⟨_, hf, fun hall => Bool.noConfusion hall⟩
    · cases h
      exact Or.inl rfl
  | plane pe =>
    simp only [step] at h
    split_ifs at h
    cases pe with
    | forgetAgent uri order => cases h
    | _ =>
      simp only [planeStep, Option.map_eq_some_iff] at h
      obtain ⟨f, hf, rfl⟩ := h
      exact Or.inr ⟨_, hf, fun _ => rfl⟩
  | _ =>
    simp only [step] at h
    obtain ⟨link, -, -, rfl⟩ := advance_eq_some h
    exact Or.inl rfl

/-- **What `ForgetAgent` releases**: the live allocations that the plane lists
under the URI. -/
theorem forgetAgent_eq_none_iff {p : Plane} {order : List UInt32} {id : UInt32} {entry : AllocEntry}
    {u : AgentURI} (ho : p.SetOrder u.val order) (he : p.byAlloc.get id = some entry) :
    (p.forgetAgent u.val order).fst.byAlloc.get id = none ↔ id ∈ (p.byURI.get u.val).getD ∅ := by
  rw [Plane.forgetAgent_byAlloc ho, ← ho.2, List.mem_toFinset, he]
  simp [u.property]

/-! ## The registry, step by step -/

/-- The registry is right as long as neither it nor the live connections
change. -/
theorem LookupOK.congr (I : s.LookupOK) (hconns : s'.agentConns = s.agentConns)
    (hlive : ∀ j uri, s'.Live j uri ↔ s.Live j uri) : s'.LookupOK := by
  have hlook : s'.lookupAgent = s.lookupAgent := by
    unfold lookupAgent
    rw [hconns]
  constructor
  · intro uri i hi
    rw [hlook] at hi
    obtain ⟨hl, hmax⟩ := I.latest uri i hi
    exact ⟨(hlive i uri).mpr hl, fun j hj => hmax j ((hlive j uri).mp hj)⟩
  · intro uri j hj
    rw [hlook]
    exact I.found uri j ((hlive j uri).mp hj)

/-- **A new connection is the latest of its agent.** -/
theorem LookupOK.register (I : s.LookupOK) (u : AgentURI) :
    LookupOK { s with
      agentConns := s.agentConns.set u.val s.links.length
      links := s.links ++ [⟨u, .registered⟩] } := by
  have hget : ∀ uri, lookupAgent { s with
      agentConns := s.agentConns.set u.val s.links.length
      links := s.links ++ [⟨u, .registered⟩] } uri
        = if uri = u.val then some s.links.length else s.lookupAgent uri :=
    fun uri => GoMap.get_set _ _ _ _
  constructor
  · intro uri i hi
    rw [hget] at hi
    split_ifs at hi with hu
    · cases hi
      refine ⟨live_register.mpr (Or.inl ⟨rfl, hu.symm⟩), fun j hj => ?_⟩
      rcases live_register.mp hj with ⟨rfl, -⟩ | hj
      · exact Nat.le_refl _
      · exact Nat.le_of_lt hj.lt
    · obtain ⟨hl, hmax⟩ := I.latest uri i hi
      refine ⟨live_register.mpr (Or.inr hl), fun j hj => ?_⟩
      rcases live_register.mp hj with ⟨-, hu'⟩ | hj
      · exact absurd hu'.symm hu
      · exact hmax j hj
  · intro uri j hj
    rw [hget]
    split_ifs with hu
    · exact ⟨_, rfl⟩
    · rcases live_register.mp hj with ⟨-, hu'⟩ | hj
      · exact absurd hu'.symm hu
      · exact I.found uri j hj

/-- **The entry of an agent goes with its last connection.** -/
theorem LookupOK.unregister (I : s.LookupOK) (hi : s.links[i]? = some link)
    (halone : ∀ j, s.Live j link.uri.val → j = i) :
    LookupOK { s.setPC i .unregistered with agentConns := s.agentConns.del link.uri.val } := by
  have hlive : ∀ {j uri}, Live { s.setPC i .unregistered with
      agentConns := s.agentConns.del link.uri.val } j uri ↔ j ≠ i ∧ s.Live j uri := by
    intro j uri
    refine (live_setPC hi).trans ?_
    simp [ServePC.live]
  -- a live connection that is left belongs to another agent
  have hother : ∀ {j uri}, j ≠ i → s.Live j uri → uri ≠ link.uri.val := by
    rintro j uri hj hl rfl
    exact hj (halone j hl)
  constructor
  · intro uri k hk
    obtain ⟨hk, hu⟩ := GoMap.of_get_del hk
    obtain ⟨hl, hmax⟩ := I.latest uri k hk
    refine ⟨hlive.mpr ⟨?_, hl⟩, fun j hj => hmax j (hlive.mp hj).2⟩
    rintro rfl
    obtain ⟨link', hi', hu', -⟩ := hl
    cases hi.symm.trans hi'
    exact hu hu'.symm
  · intro uri j hj
    obtain ⟨hne, hj⟩ := hlive.mp hj
    obtain ⟨k, hk⟩ := I.found uri j hj
    exact ⟨k, (GoMap.get_del_of_ne _ (hother hne hj)).trans hk⟩

/-- Only the last two steps of a teardown can hurt a newer connection. -/
theorem spares_of_ne (hd : ∀ i, e ≠ .deregister i) (hf : ∀ i order, e ≠ .forgetAgent i order) :
    Spares ⟨s, e, s'⟩ :=
  ⟨fun i _ he => absurd he (hd i), fun i order _ he => absurd he (hf i order)⟩

/-- **A teardown in order keeps the registry right and spares the newer
connections.** -/
theorem inOrder_step (I : s.LookupOK) (he : s.InOrder cfg e) (h : s.step cfg e = some s') :
    s'.LookupOK ∧ Spares ⟨s, e, s'⟩ := by
  cases e with
  | register u =>
    simp only [step] at h
    split at h
    · cases h
    · split_ifs at h
      cases h
      exact ⟨I.register u, spares_of_ne nofun nofun⟩
  | track i =>
    simp only [step] at h
    obtain ⟨link, hi, hpc, rfl⟩ := advance_eq_some h
    refine ⟨I.congr rfl fun j uri => live_setPC_of_eq hi ?_, spares_of_ne nofun nofun⟩
    rw [hpc]
    rfl
  | untrack i =>
    simp only [step] at h
    obtain ⟨link, hi, hpc, rfl⟩ := advance_eq_some h
    refine ⟨I.congr rfl fun j uri => live_setPC_of_eq hi ?_, spares_of_ne nofun nofun⟩
    rw [hpc]
    rfl
  | unregister i =>
    simp only [step] at h
    obtain ⟨link, hi, hpc, rfl⟩ := advance_eq_some h
    exact ⟨I.unregister hi (he link hi), spares_of_ne nofun nofun⟩
  | deregister i =>
    simp only [step] at h
    obtain ⟨link, hi, hpc, rfl⟩ := advance_eq_some h
    obtain ⟨hconns, hlinks, hreq⟩ := deregisterAgent_eq cfg link.uri.val (s.setPC i .deregistered)
    refine ⟨I.congr hconns fun j uri => ?_, fun i' link' he' hi' hne j hj hl => ?_, nofun⟩
    · refine Iff.trans (by unfold Live; rw [hlinks]) (live_setPC_of_eq hi ?_)
      rw [hpc]
      rfl
    · cases he'
      cases hi.symm.trans hi'
      exact absurd (he link hi (hreq.mp hne) j hl) (Nat.not_le_of_lt hj)
  | forgetAgent i order =>
    obtain ⟨link, f, hi, hpc, rfl, hf⟩ := step_forgetAgent h
    refine ⟨I.congr rfl fun j uri => live_setPC_of_eq hi ?_, nofun, ?_⟩
    · rw [hpc]
      rfl
    · intro i' order' link' he' hi' j id hj hsince hnone hl
      cases he'
      cases hi.symm.trans hi'
      obtain ⟨entry, hentry, -⟩ := hsince.1
      rcases hf with ⟨hfwd, ho, hplane⟩ | ⟨-, rfl⟩
      · rw [hplane, forgetAgent_eq_none_iff ho hentry] at hnone
        exact he link hi hfwd j hj hl id hnone hsince
      · cases hentry.symm.trans hnone
  | plane e =>
    simp only [step] at h
    split_ifs at h
    obtain ⟨hconns, hlinks⟩ := planeStep_eq h
    refine ⟨I.congr hconns fun j uri => ?_, spares_of_ne nofun nofun⟩
    unfold Live
    rw [hlinks]

/-- **A teardown out of order loses the entry, the services or an allocation of
a live connection.** -/
theorem not_spared_of_not_inOrder (he : ¬ s.InOrder cfg e) (h : s.step cfg e = some s') :
    ¬ (s'.LookupOK ∧ Spares ⟨s, e, s'⟩) := by
  rintro ⟨I', hsp⟩
  cases e with
  | unregister i =>
    simp only [step] at h
    obtain ⟨link, hi, hpc, rfl⟩ := advance_eq_some h
    refine he fun link' hi' j hl => ?_
    cases hi.symm.trans hi'
    by_contra hj
    obtain ⟨k, hk⟩ := I'.found _ j ((live_setPC hi).mpr (Or.inr ⟨hj, hl⟩))
    exact (GoMap.of_get_del hk).2 rfl
  | deregister i =>
    simp only [step] at h
    obtain ⟨link, hi, hpc, rfl⟩ := advance_eq_some h
    refine he fun link' hi' ht j hl => ?_
    cases hi.symm.trans hi'
    by_contra hj
    have hreq := (deregisterAgent_eq cfg link.uri.val (s.setPC i .deregistered)).2.2.mpr ht
    exact hsp.services i link rfl hi hreq j (Nat.lt_of_not_le hj) hl
  | forgetAgent i order =>
    obtain ⟨link, f, hi, hpc, rfl, hf⟩ := step_forgetAgent h
    refine he fun link' hi' hfwd j hj hl id hid hsince => ?_
    cases hi.symm.trans hi'
    obtain ⟨entry, hentry, -⟩ := hsince.1
    rcases hf with ⟨-, ho, hplane⟩ | ⟨hoff, -⟩
    · refine hsp.allocations i order link rfl hi j id hj hsince ?_ hl
      exact (congrArg (fun p : Plane => p.byAlloc.get id) hplane).trans
        ((forgetAgent_eq_none_iff ho hentry).mpr hid)
    · exact nomatch hoff.symm.trans hfwd
  | _ => exact he trivial

end RelayState

/-- **When reconnecting is safe.** In a run of the relay the registry is right
in every state, and every step spares the newer connections of the agent it
acts for, exactly when every teardown is in order. -/
theorem reconnect_safe_iff_inOrder {cfg : RelayConfig} {idleTTL pendingTTL start : Time}
    {h : List (Transition RelayState RelayEvent)} {s : RelayState}
    (hx : (relayMachine cfg idleTTL pendingTTL start).Exec h s) :
    (Machine.Throughout RelayState.LookupOK h s ∧ ∀ t ∈ h, RelayState.Spares t)
      ↔ ∀ t ∈ h, RelayState.InOrder cfg t.pre t.ev := by
  have hinit : RelayState.LookupOK (relayMachine cfg idleTTL pendingTTL start).init :=
    ⟨fun _ _ hi => (nomatch hi), fun _ _ ⟨_, hj, _⟩ => nomatch hj⟩
  rw [hx.throughout_iff_post, and_iff_right hinit, ← forall₂_and]
  exact hx.forall_iff (Q := fun t => t.post.LookupOK ∧ RelayState.Spares t) hinit
    (fun _ I he hstep =>
      ⟨(RelayState.inOrder_step I he hstep).1, RelayState.inOrder_step I he hstep⟩)
    (fun _ _ he hstep => RelayState.not_spared_of_not_inOrder he hstep)

/-- An agent. -/
def agentC : AgentURI := ⟨go "outrelay://acme/agent/c1", by decide⟩

/-- A relay with a forwarding plane, to which one agent connects. -/
def relayR1 : RelayConfig where
  relayID := go "outrelay://acme/relay/r1"
  parse := fun uri => if uri = agentC.val then some ⟨go "acme", false⟩ else none
  forward := true

/-- The agent's second connection registers, and gets an allocation, before
the first is torn down. -/
def lateTeardown : List RelayEvent :=
  [.register agentC, .track 0, .register agentC, .track 1, .plane (.allocate agentC.val 10),
    .untrack 0, .unregister 0, .deregister 0, .forgetAgent 0 [1]]

/-- The teardown takes everything from the second connection: it is serving,
and the registry does not know the agent, the controller has been told to drop
its services, and its allocation is gone. -/
theorem late_teardown_unregisters_newer :
    ∃ h s, (relayMachine relayR1 100 30 0).Exec h s
      ∧ ¬ (Machine.Throughout RelayState.LookupOK h s ∧ ∀ t ∈ h, RelayState.Spares t)
      ∧ s.links[1]? = some ⟨agentC, .serving⟩ ∧ s.lookupAgent agentC.val = none
      ∧ s.requests = [⟨go "acme", agentC.val, go "outrelay://acme/relay/r1"⟩]
      ∧ s.issuedAt.get 1 = some 2 ∧ s.forward.plane.byAlloc.get 1 = none := by
  obtain ⟨s, hrun, hlink, hlook, hreq, hissued, halloc⟩ : ∃ s,
      (relayMachine relayR1 100 30 0).run lateTeardown (relayMachine relayR1 100 30 0).init = some s
      ∧ s.links[1]? = some ⟨agentC, .serving⟩ ∧ s.lookupAgent agentC.val = none
      ∧ s.requests = [⟨go "acme", agentC.val, go "outrelay://acme/relay/r1"⟩]
      ∧ s.issuedAt.get 1 = some 2 ∧ s.forward.plane.byAlloc.get 1 = none :=
    ⟨_, rfl, rfl, rfl, rfl, rfl, rfl⟩
  obtain ⟨h, hx, -⟩ := Machine.exec_of_run _ _ hrun
  refine ⟨h, s, hx, ?_, hlink, hlook, hreq, hissued, halloc⟩
  rintro ⟨⟨I, -⟩, -⟩
  obtain ⟨k, hk⟩ := I.found agentC.val 1 ⟨_, hlink, rfl, rfl⟩
  cases hlook.symm.trans hk

/-- An agent that connects again once the relay has noticed that it left. -/
theorem reconnect_after_teardown :
    ∃ h s, (relayMachine relayR1 100 30 0).Exec h s
      ∧ (Machine.Throughout RelayState.LookupOK h s ∧ ∀ t ∈ h, RelayState.Spares t)
      ∧ s.lookupAgent agentC.val = some 1 := by
  obtain ⟨s₁, s₂, s₃, s₄, s₅, hrun, h₂, h₃, h₄, h₅, hl₁, hl₂, hl₃, hlook⟩ : ∃ s₁ s₂ s₃ s₄ s₅,
      (relayMachine relayR1 100 30 0).run [.register agentC, .track 0, .untrack 0]
        (relayMachine relayR1 100 30 0).init = some s₁
      ∧ (relayMachine relayR1 100 30 0).step s₁ (.unregister 0) = some s₂
      ∧ (relayMachine relayR1 100 30 0).step s₂ (.deregister 0) = some s₃
      ∧ (relayMachine relayR1 100 30 0).step s₃ (.forgetAgent 0 []) = some s₄
      ∧ (relayMachine relayR1 100 30 0).step s₄ (.register agentC) = some s₅
      ∧ s₁.links.length = 1 ∧ s₂.links.length = 1 ∧ s₃.links.length = 1
      ∧ s₅.lookupAgent agentC.val = some 1 :=
    ⟨_, _, _, _, _, rfl, rfl, rfl, rfl, rfl, rfl, rfl, rfl, rfl⟩
  obtain ⟨h, hx, hev⟩ := Machine.exec_of_run _ _ hrun
  have hx' := (((hx.snoc h₂).snoc h₃).snoc h₄).snoc h₅
  refine ⟨_, s₅, hx', (reconnect_safe_iff_inOrder hx').mpr ?_, hlook⟩
  intro t ht
  simp only [List.append_assoc, List.mem_append, List.mem_singleton] at ht
  rcases ht with ht | rfl | rfl | rfl | rfl
  · have hmem : t.ev ∈ h.map Transition.ev := List.mem_map_of_mem ht
    rw [hev] at hmem
    generalize t.ev = e at hmem
    cases e with
    | register | track | untrack => trivial
    | _ => simp at hmem
  · exact fun link _ j hl => Nat.lt_one_iff.mp (hl.lt.trans_eq hl₁)
  · exact fun link _ _ j hl => Nat.le_of_lt_succ (hl.lt.trans_eq hl₂)
  · exact fun link _ _ j hj hl => absurd (hl.lt.trans_eq hl₃) (Nat.not_lt_of_le hj)
  · trivial
