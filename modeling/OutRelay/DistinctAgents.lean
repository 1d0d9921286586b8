import OutRelay.ForwardRound
import OutRelay.ResumeSplice

/-!
# An agent that meets itself

Both matchers pair halves *from two reconnecting agents by stream id*. The id
is all they compare. A half stays parked for its whole window, whatever becomes
of the connection it came over, so an agent that loses its new connection as
well and tries again within the window submits a second half under the id of
its first – and is paired with itself. Its stream is then spliced to its own
old one, or it is granted both ends of an allocation pair, and the half of the
real peer, which comes later, is parked and expires.

Nothing else goes wrong: two halves that are paired always carry one stream
id, and the pairs that are made of different agents stay so. Hence the exact
condition, for both machines: no half is submitted while one of its own agent
waits under its id.
-/

/-! ## Streams that are spliced -/

namespace ResumeState

/-- **Only two different agents are paired, and spliced.** -/
structure TwoAgents (s : ResumeState) : Prop where
  matched : ∀ (i p : ℕ) (a b : Half), s.halves[i]? = some a → s.halves[p]? = some b →
    a.fate = .matchedWith p → b.id = a.id ∧ a.uri ≠ b.uri
  spliced : ∀ (i p : ℕ) (a b : Half), s.halves[i]? = some a → s.halves[p]? = some b →
    a.handler = .splicing p ∨ p ∈ a.splices → a.uri ≠ b.uri

/-- A half that is submitted finds none of its own agent under its id. -/
def MeetsOther (s : ResumeState) (e : ResumeEvent) : Prop :=
  ∀ kind id uri my ack, e = .submit kind id uri my ack →
    ∀ p b, s.pending.get id = some p → heap s.halves p = some b → b.uri ≠ uri

variable {s s' : ResumeState} {i p : ℕ} {a b : Half}

/-- What a splice joins is a pair. -/
theorem SpliceInv.fate_of_spliced (I : s.SpliceInv) (hi : heap s.halves i = some a)
    (hspl : a.handler = .splicing p ∨ p ∈ a.splices) : a.fate = .matchedWith p := by
  rcases hspl with hh | hmem
  · obtain ⟨b, hb, hab⟩ := I.second_of_peer hi (show a.handler.peer? = some p by rw [hh]; rfl)
    exact hab.fates.1
  · have hok := I.halves.party i a hi
    -- a half without a partner has not been spliced
    have hnil : ∀ {P : Prop}, a.splices = [] → P := by
      intro P h
      rw [h] at hmem
      cases hmem
    have hone : ∀ {q : ℕ} {c : Bool}, a.splices = (if c then [q] else []) → p = q := by
      intro q c h
      rw [h] at hmem
      cases c with
      | true => exact List.mem_singleton.mp hmem
      | false => cases hmem
    cases hf : a.fate with
    | parked => exact hnil (hok.parked hf).2.stream.1
    | expired => exact hnil (hok.expired hf).2.stream
    | matchedWith q =>
      obtain ⟨-, b, hb, hab | hab⟩ := hok.matched hf
      · rw [hone hab.splices.1]
      · rw [hone hab.splices.2]

/-- The pairs show all there is to it. -/
theorem SpliceInv.twoAgents (I : s.SpliceInv)
    (hA : resumeProtocol.Apart Half.uri (heap s.halves)) : s.TwoAgents where
  matched i p a b hi hp hf := ⟨I.halves.key_of_matched hi hp hf, hA i p a b hi hp hf⟩
  spliced i p a b hi hp hspl := hA i p a b hi hp (I.fate_of_spliced hi hspl)

theorem TwoAgents.apart (h : s.TwoAgents) : resumeProtocol.Apart Half.uri (heap s.halves) :=
  fun i p a b hi hp hf => (h.matched i p a b hi hp hf).2

/-- **Pairs of different agents stay so**, and a half that meets another agent
makes one. -/
theorem apart_step {e : ResumeEvent} (I : s.SpliceInv)
    (hA : resumeProtocol.Apart Half.uri (heap s.halves)) (hG : s.MeetsOther e)
    (hstep : s.step e = some s') : resumeProtocol.Apart Half.uri (heap s'.halves) := by
  refine (evolves_step I hstep).apart I.halves hA (fun _ _ hac => hac.stream.2) (heap_length _)
    fun i f hx hf => ?_
  rcases hx with ⟨hexp, -⟩ | ⟨kind, id, uri, my, ack, q, he, hpend, hside⟩
  · exact absurd hexp hf
  · refine ⟨id, q, hpend, hside, ?_⟩
    rintro b d hb ⟨my', ack', he'⟩
    cases he.symm.trans he'
    exact hG _ _ _ _ _ he q b hpend hb

/-- A half that meets its own agent is paired with it. -/
theorem not_twoAgents_of_submit {kind : HalfKind} {id : UInt64} {uri : GoString} {my ack : UInt64}
    (hpend : s.pending.get id = some p) (hp : heap s.halves p = some b) (huri : b.uri = uri) :
    ¬ (s.submit kind id uri my ack).TwoAgents := by
  intro hT
  have hA := hT.apart
  unfold submit at hA
  rw [hpend] at hA
  dsimp only at hA
  rw [heap_modify_append hp] at hA
  refine Rendezvous.not_apart_of_pair (heap_length _) hp ?_ huri.symm ?_ hA <;> rfl

end ResumeState

/-! ## Allocations that are granted -/

namespace ForwardState

/-- **Only two different agents are paired, and granted an allocation pair.** -/
structure TwoAgents (s : ForwardState) : Prop where
  matched : ∀ (i p : ℕ) (a b : ForwardHalf), s.halves[i]? = some a → s.halves[p]? = some b →
    a.fate = .matchedWith p → b.id = a.id ∧ a.agentURI ≠ b.agentURI
  granted : ∀ (g g' : Grant) (l l' : AgentLink), g ∈ s.granted → g' ∈ s.granted →
    g.round = g'.round → g ≠ g' → s.relay.links[g.ac]? = some l →
    s.relay.links[g'.ac]? = some l' → l.uri ≠ l'.uri

/-- A half that is submitted finds none of its own agent under its id. -/
def MeetsOther (s : ForwardState) (e : ForwardEvent) : Prop :=
  ∀ ac id, e = .submit ac id → ∀ p b link, s.pending.get id = some p →
    heap s.halves p = some b → s.relay.links[ac]? = some link → b.agentURI ≠ link.uri

variable {cfg : ForwardConfig} {s s' : ForwardState} {i p : ℕ} {a b : ForwardHalf}

/-- **The frames of a round go to the agents of its pair.** -/
theorem RoundInv.frames_apart (R : s.RoundInv cfg) (I : s.MatchInv) (hL : s.HalfLinks)
    (hA : forwardProtocol.Apart ForwardHalf.agentURI (heap s.halves))
    {g g' : Grant} {l l' : AgentLink} (hg : g ∈ s.granted) (hg' : g' ∈ s.granted)
    (hround : g.round = g'.round) (hne : g ≠ g') (hl : s.relay.links[g.ac]? = some l)
    (hl' : s.relay.links[g'.ac]? = some l') : l.uri ≠ l'.uri := by
  have hmem : g ∈ s.roundFrames g.round := List.mem_filter.mpr ⟨hg, decide_eq_true rfl⟩
  have hmem' : g' ∈ s.roundFrames g.round :=
    List.mem_filter.mpr ⟨hg', decide_eq_true hround.symm⟩
  cases ha : heap s.halves g.round with
  | none =>
    rw [(R.none _ ha).1] at hmem
    cases hmem
  | some a =>
    obtain ⟨p, x, y, rr, hh⟩ := (R.written _ a ha).peer_of_ne_nil (List.ne_nil_of_mem hmem)
    have hpeer : a.driver.peer? = some p := by
      rcases hh with h | h <;> rw [h] <;> rfl
    obtain ⟨b, hb, hab⟩ := I.second_of_peer ha hpeer
    rcases R.frames ha hb hab with hnil | ⟨x, y, rr, hpre, -⟩
    · rw [hnil] at hmem
      cases hmem
    · obtain ⟨la, hla, hua⟩ := hL _ a ha
      obtain ⟨lb, hlb, hub⟩ := hL p b hb
      have hapart : la.uri ≠ lb.uri := by
        rw [hua, hub]
        exact hA _ p a b ha hb hab.fates.1
      have hcases : ∀ {f : Grant}, f ∈ s.roundFrames g.round →
          f = ⟨g.round, a.ac, ⟨a.id, x, y, cfg.endpoint, rr⟩⟩
            ∨ f = ⟨g.round, b.ac, ⟨a.id, y, x, cfg.endpoint, rr⟩⟩ := by
        intro f hf
        simpa [roundOf] using hpre.subset hf
      rcases hcases hmem with h | h <;> rcases hcases hmem' with h' | h'
      · exact absurd (h.trans h'.symm) hne
      · rw [h] at hl
        rw [h'] at hl'
        cases hl.symm.trans hla
        cases hl'.symm.trans hlb
        exact hapart
      · rw [h] at hl
        rw [h'] at hl'
        cases hl.symm.trans hlb
        cases hl'.symm.trans hla
        exact hapart.symm
      · exact absurd (h.trans h'.symm) hne

/-- The pairs show all there is to it. -/
theorem MatchInv.twoAgents (I : s.MatchInv) (R : s.RoundInv cfg) (hL : s.HalfLinks)
    (hA : forwardProtocol.Apart ForwardHalf.agentURI (heap s.halves)) : s.TwoAgents where
  matched i p a b hi hp hf := ⟨I.halves.key_of_matched hi hp hf, hA i p a b hi hp hf⟩
  granted _ _ _ _ hg hg' hround hne hl hl' := R.frames_apart I hL hA hg hg' hround hne hl hl'

theorem TwoAgents.apart (h : s.TwoAgents) :
    forwardProtocol.Apart ForwardHalf.agentURI (heap s.halves) :=
  fun i p a b hi hp hf => (h.matched i p a b hi hp hf).2

/-- **Pairs of different agents stay so**, and a half that meets another agent
makes one. -/
theorem apart_step {e : ForwardEvent} (I : s.MatchInv)
    (hA : forwardProtocol.Apart ForwardHalf.agentURI (heap s.halves)) (hG : s.MeetsOther e)
    (hstep : s.step cfg e = some s') :
    forwardProtocol.Apart ForwardHalf.agentURI (heap s'.halves) := by
  refine (evolves_step I hstep).apart I.halves hA (fun _ _ hac => hac.2.1) (heap_length _)
    fun i f hx hf => ?_
  rcases hx with ⟨hexp, -⟩ | ⟨ac, id, q, he, hpend, hside⟩
  · exact absurd hexp hf
  · refine ⟨id, q, hpend, hside, ?_⟩
    rintro b d hb ⟨-, -, he', link, hl, hu⟩
    cases he.symm.trans he'
    rw [← hu]
    exact hG _ _ he q b link hpend hb hl

/-- A half that meets its own agent is paired with it. -/
theorem not_twoAgents_of_submit {ac : ℕ} {id : UInt64} {uri : AgentURI}
    (hpend : s.pending.get id = some p) (hp : heap s.halves p = some b) (huri : b.agentURI = uri) :
    ¬ (s.submit ac uri id).TwoAgents := by
  intro hT
  have hA := hT.apart
  unfold submit at hA
  rw [hpend] at hA
  dsimp only at hA
  rw [heap_modify_append hp] at hA
  refine Rendezvous.not_apart_of_pair (heap_length _) hp ?_ huri.symm ?_ hA <;> rfl

end ForwardState

/-- **When the matchers pair only different agents.** In a run of
`resumeMatcher`, and in one of `forwardMatcher`, every two halves that are
matched carry one stream id and come from two agents, no agent is spliced to
itself, and none is granted both ends of an allocation pair – in every state of
the run exactly when no half is submitted while one of its own agent waits under
its id. -/
theorem twoAgents_iff_meetsOther {hr : List (Transition ResumeState ResumeEvent)}
    {r : ResumeState} {cfg : ForwardConfig} {idleTTL pendingTTL start : Time}
    {hf : List (Transition ForwardState ForwardEvent)} {f : ForwardState}
    (hxr : resumeMachine.Exec hr r)
    (hxf : (forwardMachine cfg idleTTL pendingTTL start).Exec hf f) :
    (Machine.Throughout ResumeState.TwoAgents hr r ↔ ∀ t ∈ hr, t.pre.MeetsOther t.ev)
      ∧ (Machine.Throughout ForwardState.TwoAgents hf f ↔ ∀ t ∈ hf, t.pre.MeetsOther t.ev) := by
  constructor
  · refine hxr.throughout_iff
      (I := fun s => s.SpliceInv ∧ resumeProtocol.Apart Half.uri (heap s.halves))
      ⟨ResumeState.spliceInv_of_reachable .init, fun i p a b hi => ?_⟩
      (fun I => I.1.twoAgents I.2) (fun _ I hG hstep => ?_) (fun {s e s'} _ I hG hstep => ?_)
    · cases hi
    · exact ⟨ResumeState.spliceInv_step I.1 hstep, ResumeState.apart_step I.1 I.2 hG hstep⟩
    · unfold ResumeState.MeetsOther at hG
      simp only [not_forall, not_not] at hG
      obtain ⟨kind, id, uri, my, ack, rfl, p, b, hpend, hb, huri⟩ := hG
      have hstep : s.step (.submit kind id uri my ack) = some s' := hstep
      unfold ResumeState.step at hstep
      rw [if_neg (by rw [I.1.calm]; exact Bool.false_ne_true)] at hstep
      cases hstep
      exact ResumeState.not_twoAgents_of_submit hpend hb huri
  · refine hxf.throughout_iff
      (I := fun s => s.MatchInv ∧ s.RoundInv cfg ∧ s.HalfLinks
        ∧ forwardProtocol.Apart ForwardHalf.agentURI (heap s.halves))
      ⟨ForwardState.matchInv_of_reachable .init, ForwardState.roundInv_of_reachable .init,
        ForwardState.halfLinks_of_reachable .init, fun i p a b hi => ?_⟩
      (fun I => I.1.twoAgents I.2.1 I.2.2.1 I.2.2.2) (fun hs I hG hstep => ?_)
      (fun {s e s'} _ I hG hstep => ?_)
    · cases hi
    · have hs' := hs.step hstep
      exact ⟨ForwardState.matchInv_of_reachable hs', ForwardState.roundInv_of_reachable hs',
        ForwardState.halfLinks_of_reachable hs', ForwardState.apart_step I.1 I.2.2.2 hG hstep⟩
    · unfold ForwardState.MeetsOther at hG
      simp only [not_forall, not_not] at hG
      obtain ⟨ac, id, rfl, p, b, link, hpend, hb, hl, huri⟩ := hG
      have hstep : s.step cfg (.submit ac id) = some s' := hstep
      unfold ForwardState.step at hstep
      rw [if_neg (by rw [I.1.calm]; exact Bool.false_ne_true)] at hstep
      dsimp only at hstep
      rw [hl, Option.bind_some] at hstep
      split_ifs at hstep
      cases hstep
      exact ForwardState.not_twoAgents_of_submit hpend hb huri

/-- An agent resumes a stream twice, on two data streams, and the relay splices
them; and it does so for a forward-mode stream, and is granted both ends of an
allocation pair. -/
theorem agent_meets_itself :
    (∃ h s, resumeMachine.Exec h s ∧ ¬ s.TwoAgents
      ∧ s.halves.map Half.uri = [go "c1", go "c1"] ∧ s.halves.map Half.splices = [[1], [0]])
    ∧ ∃ h s, (forwardMachine relayR2 100 30 0).Exec h s ∧ ¬ s.TwoAgents
      ∧ s.granted = [⟨1, 0, ⟨9, 1, 2, go "192.0.2.1:7443", []⟩⟩,
        ⟨1, 0, ⟨9, 2, 1, go "192.0.2.1:7443", []⟩⟩] := by
  constructor
  · obtain ⟨s, a, b, hrun, ha, hb, hf, huri, huris, hspl⟩ : ∃ s a b, resumeMachine.run
        ([.submit .migrate 9 (go "c1") 0 0, .submit .migrate 9 (go "c1") 0 0]
          ++ List.replicate 6 (.handler 1)) resumeMachine.init = some s
        ∧ s.halves[1]? = some a ∧ s.halves[0]? = some b ∧ a.fate = .matchedWith 0
        ∧ a.uri = b.uri ∧ s.halves.map Half.uri = [go "c1", go "c1"]
        ∧ s.halves.map Half.splices = [[1], [0]] :=
      ⟨_, _, _, rfl, rfl, rfl, rfl, rfl, rfl, rfl⟩
    obtain ⟨h, hx, -⟩ := Machine.exec_of_run _ _ hrun
    exact ⟨h, s, hx, fun hT => (hT.matched 1 0 a b ha hb hf).2 huri, huris, hspl⟩
  · obtain ⟨s, a, b, hrun, ha, hb, hf, huri, hgranted⟩ : ∃ s a b,
        (forwardMachine relayR2 100 30 0).run
          ([.relay (.register agentC), .relay (.track 0), .submit 0 9, .submit 0 9]
            ++ List.replicate 9 (.driver 1 5)) (forwardMachine relayR2 100 30 0).init = some s
        ∧ s.halves[1]? = some a ∧ s.halves[0]? = some b ∧ a.fate = .matchedWith 0
        ∧ a.agentURI = b.agentURI
        ∧ s.granted = [⟨1, 0, ⟨9, 1, 2, go "192.0.2.1:7443", []⟩⟩,
          ⟨1, 0, ⟨9, 2, 1, go "192.0.2.1:7443", []⟩⟩] :=
      ⟨_, _, _, rfl, rfl, rfl, rfl, rfl, rfl⟩
    obtain ⟨h, hx, -⟩ := Machine.exec_of_run _ _ hrun
    exact ⟨h, s, hx, fun hT => (hT.matched 1 0 a b ha hb hf).2 huri, hgranted⟩

/-- Two agents resume a stream, on data streams and in forward mode. -/
theorem two_agents_meet :
    ∃ hr r hf f, resumeMachine.Exec hr r ∧ (forwardMachine relayR2 100 30 0).Exec hf f
      ∧ Machine.Throughout ResumeState.TwoAgents hr r
      ∧ Machine.Throughout ForwardState.TwoAgents hf f
      ∧ r.halves.map Half.fate = [.matchedWith 1, .matchedWith 0]
      ∧ f.halves.map ForwardHalf.fate = [.matchedWith 1, .matchedWith 0] := by
  obtain ⟨r₁, r, b, hr₁, hr, hb, huri, hfates⟩ : ∃ r₁ r b,
      resumeMachine.step resumeMachine.init (.submit .resume 9 (go "c1") 0 0) = some r₁
      ∧ resumeMachine.step r₁ (.submit .resume 9 (go "p1") 0 0) = some r
      ∧ r₁.halves = [b] ∧ b.uri ≠ go "p1"
      ∧ r.halves.map Half.fate = [.matchedWith 1, .matchedWith 0] :=
    ⟨_, _, _, rfl, rfl, rfl, by decide, rfl⟩
  obtain ⟨f₀, f₁, f, c, hrun, hf₁, hf, hpend, hc, huric, hlinks, hfatesf⟩ : ∃ f₀ f₁ f c,
      (forwardMachine relayR2 100 30 0).run (bothResume.take 4)
        (forwardMachine relayR2 100 30 0).init = some f₀
      ∧ (forwardMachine relayR2 100 30 0).step f₀ (.submit 0 9) = some f₁
      ∧ (forwardMachine relayR2 100 30 0).step f₁ (.submit 1 9) = some f
      ∧ f₀.pending = ∅ ∧ f₁.halves = [c] ∧ c.agentURI.val ≠ agentD.val
      ∧ f₁.relay.links = [⟨agentC, .serving⟩, ⟨agentD, .serving⟩]
      ∧ f.halves.map ForwardHalf.fate = [.matchedWith 1, .matchedWith 0] :=
    ⟨_, _, _, _, rfl, rfl, rfl, rfl, rfl, by decide, rfl, rfl⟩
  have hxr := (Machine.Exec.nil.snoc hr₁).snoc hr
  obtain ⟨h, hx, hev⟩ := Machine.exec_of_run _ _ hrun
  have hxf := (hx.snoc hf₁).snoc hf
  have hiff := twoAgents_iff_meetsOther hxr hxf
  refine ⟨_, r, _, f, hxr, hxf, hiff.1.mpr ?_, hiff.2.mpr ?_, hfates, hfatesf⟩
  · simp only [List.nil_append, List.cons_append, List.forall_mem_cons]
    refine ⟨?_, ?_, fun _ h => absurd h List.not_mem_nil⟩
    · intro kind id uri my ack _ p d hwait
      cases hwait
    · intro kind id uri my ack he p d _ hd
      cases he
      rw [hb] at hd
      cases p with
      | zero =>
        cases hd
        exact huri
      | succ p => cases hd
  · simp only [List.append_assoc, List.forall_mem_append, List.forall_mem_singleton]
    refine ⟨fun t ht => ?_, ?_, ?_⟩
    · intro ac id he
      have hmem : t.ev ∈ h.map Transition.ev := List.mem_map_of_mem ht
      rw [hev, he] at hmem
      simp [bothResume] at hmem
    · intro ac id _ p d link hwait
      rw [hpend] at hwait
      cases hwait
    · intro ac id he p d link _ hd hl huri
      cases he
      rw [hlinks] at hl
      cases hl
      rw [hc] at hd
      cases p with
      | zero =>
        cases hd
        exact huric (congrArg Subtype.val huri)
      | succ p => cases hd
