import OutRelay.ConnectionPaths

/-!
# Control frames between two agents

While a stream is open its two agents talk to each other through the relay's
control streams: candidates for a direct path, checkpoints for a resumption.
Such a frame names a stream and no addressee. The control loop of the sender
asks the pair table for the other end, the registry for a connection of that
URI, and puts the frame on its control stream as it came.

Here is what holds of the loop by itself, whatever the tables answer
(`controlLoop_sites`). It acts for its own connection only. What it puts on the
control stream of another is the frame that it has read last, and the two answers
that it has got since are all that decides where it goes. What the tables have to do
with connections and streams is the matter of `Mesh`.
-/

/-- The connection that an operation is for: what `serveConn` enters in a table, or starts
a goroutine for, and what the control loop drives a resumption for. -/
def ConnOp.conn : ConnOp → Option AgentConn
  | .registerAgent ac | .trackAgent ac | .untrackAgent ac => some ac
  | .startControlLoop ac | .startConsumerStream ac | .driveForwardResume ac _ => some ac
  | _ => none

theorem ConnOp.agent_of_conn {o : ConnOp} {ac : AgentConn} (ho : o.conn = some ac) :
    o.agent = some ac.uri := by
  cases o with
  | registerAgent | trackAgent | untrackAgent | startControlLoop | startConsumerStream
  | driveForwardResume =>
    cases ho
    rfl
  | _ => cases ho

/-! ## Where the control loop passes a frame on -/

/-- **`parse` reads what `MarshalBinary` writes**: whoever reads the bytes has the frame. -/
def Codec.ParsedBy (codec : Codec) (parse : List UInt8 → Option CtrlFrame) : Prop :=
  ∀ f data, codec.marshalBinary f = some data → parse data = some f

namespace ConnProc

variable {cfg : RelayConfig} {codec : Codec} {ac dst : AgentConn} {f : CtrlFrame} {n : ℕ}
  {data : List UInt8}

/-- **The last three events before a frame is passed on**: it was read, the pair
table was asked for the other end of the stream it names, and the registry for a
connection. -/
def PassesOn (codec : Codec) (ac dst : AgentConn) (data : List UInt8) (tr : List ConnEvent) :
    Prop :=
  ∃ pre f sid uri, tr = pre ++ [⟨.parseFrame, .ok f⟩, ⟨.peerOf sid ac.uri, uri⟩,
      ⟨.lookupAgent uri, some dst⟩]
    ∧ uri ≠ [] ∧ relayedStream codec f = some sid ∧ codec.marshalBinary f = some data

theorem forwardFrame_sites {sid : UInt64} :
    (forwardFrame codec ac sid f).Sites fun tr o => ∀ dst data, o = .writeData dst data →
      ∃ uri, tr = [⟨.peerOf sid ac.uri, uri⟩, ⟨.lookupAgent uri, some dst⟩]
        ∧ uri ≠ [] ∧ codec.marshalBinary f = some data := by
  refine Prog.sites_call.mpr ⟨nofun, fun uri => ?_⟩
  split_ifs with huri
  · exact Prog.sites_pure
  · refine Prog.sites_call.mpr ⟨nofun, fun r => ?_⟩
    cases r with
    | none => exact Prog.sites_pure
    | some dst =>
      cases hdata : codec.marshalBinary f with
      | none => exact Prog.sites_pure
      | some data =>
        refine Prog.sites_call.mpr ⟨fun dst' data' h => ?_, fun _ => Prog.sites_pure⟩
        cases h
        exact ⟨uri, rfl, huri, rfl⟩

theorem type_of_relayed {sid : UInt64} (hsid : relayedStream codec f = some sid) :
    f.type = .candidateOffer ∨ f.type = .candidateAnswer ∨ f.type = .streamCheckpoint := by
  unfold relayedStream at hsid
  split at hsid
  next hf => exact Or.inl hf
  next hf => exact Or.inr (Or.inl hf)
  next hf => exact Or.inr (Or.inr hf)
  · cases hsid

/-- A frame for the other end is handled by `forwardFrame`. -/
theorem handleControl_of_relayed {sid : UInt64} (hsid : relayedStream codec f = some sid) :
    handleControl cfg codec ac f = forwardFrame codec ac sid f := by
  have helim : (relayedStream codec f).elim (pure ()) (fun sid => forwardFrame codec ac sid f)
      = forwardFrame codec ac sid f := by
    rw [hsid]
    rfl
  rw [← helim]
  obtain hf | hf | hf := type_of_relayed hsid
  · simp only [handleControl, hf]
    exact forwardCandidate_eq (Or.inl hf)
  · simp only [handleControl, hf]
    exact forwardCandidate_eq (Or.inr hf)
  · simp only [handleControl, hf]
    exact forwardCheckpoint_eq hf

/-- **What the control loop requires of the events before an operation**: it acts for
its own agent and connection, it passes on the frame it has just read, and it registers
nothing. -/
structure ControlSite (codec : Codec) (ac : AgentConn) (tr : List ConnEvent) (o : ConnOp) :
    Prop where
  agent : ∀ uri, o.agent = some uri → uri = ac.uri
  conn : ∀ ac', o.conn = some ac' → ac' = ac
  passesOn : ∀ dst data, o = .writeData dst data → PassesOn codec ac dst data tr
  registers : ∀ ac', o ≠ .registerAgent ac'

/-- An operation that is none of these. -/
theorem controlSite_of_none {tr : List ConnEvent} {o : ConnOp} (ho : o.agent = none)
    (hdata : ∀ dst data, o ≠ .writeData dst data) : ControlSite codec ac tr o where
  agent uri h := by cases ho.symm.trans h
  conn ac' h := by cases ho.symm.trans (ConnOp.agent_of_conn h)
  passesOn dst data h := absurd h (hdata dst data)
  registers ac' h := by
    rw [h] at ho
    cases ho

/-- Whatever a frame leads to is done for the connection's own agent. -/
theorem Handles.own {o : ConnOp} (h : Handles cfg codec ac f o) :
    (∀ uri, o.agent = some uri → uri = ac.uri) ∧ (∀ ac', o.conn = some ac' → ac' = ac)
      ∧ ∀ ac', o ≠ .registerAgent ac' := by
  cases h <;> exact ⟨fun _ h => by cases h <;> rfl, fun _ h => by cases h <;> rfl, nofun⟩

theorem handleControl_passesOn (pre : List ConnEvent) :
    (handleControl cfg codec ac f).Sites fun tr o => ∀ dst data, o = .writeData dst data →
      PassesOn codec ac dst data (pre ++ ⟨.parseFrame, .ok f⟩ :: tr) := by
  cases hsid : relayedStream codec f with
  | none =>
    refine Prog.Sites.imp handleControl_within ?_
    rintro tr o h dst data rfl
    cases h with
    | writeData sid _ _ h _ => cases hsid.symm.trans h
  | some sid =>
    rw [handleControl_of_relayed hsid]
    refine Prog.Sites.imp forwardFrame_sites fun tr o h dst data ho => ?_
    obtain ⟨uri, rfl, huri, hdata⟩ := h dst data ho
    exact ⟨pre, f, sid, uri, rfl, huri, hsid, hdata⟩

/-- **The control loop keeps to what it is for.** -/
theorem controlLoop_sites : (controlLoop cfg codec ac n).Sites (ControlSite codec ac) := by
  refine Prog.sites_rounds (I := fun _ => True) trivial
    (fun _ _ => Prog.all_iff.mpr fun _ _ _ => trivial) fun pre _ => ?_
  refine Prog.sites_call.mpr ⟨controlSite_of_none rfl nofun, fun r => ?_⟩
  cases r with
  | error err => exact Prog.sites_pure
  | ok f =>
    refine Prog.sites_bind.mpr ⟨?_, Prog.all_iff.mpr fun _ _ _ => ?_⟩
    · refine Prog.Sites.imp (Prog.Sites.and handleControl_within (handleControl_passesOn pre)) ?_
      exact fun tr o ⟨hown, hpass⟩ => ⟨hown.own.1, hown.own.2.1, hpass, hown.own.2.2⟩
    · exact Prog.sites_call.mpr ⟨controlSite_of_none rfl nofun, fun _ => Prog.sites_pure⟩

/-! ## Two agents -/

/-- A codec in which a `HELLO` is its URI, and every candidate is for stream `7`. Offers are
passed on as their payload. -/
def plainCodec : Codec where
  hello := some
  register _ := none
  observedAddrQuery _ := none
  candidateOffer _ := some 7
  candidateAnswer _ := some 7
  streamCheckpoint _ := none
  migrateToP2P _ := none
  forwardResume _ := none
  forwardRegister _ := none
  marshalBinary f := if f.type = .candidateOffer then some f.payload else none

/-- The environment of an agent's `serveConn`. -/
def greeting (ac : AgentConn) : ∀ o : ConnOp, o.Ans :=
  answering ac.uri [] ⟨.hello, ac.uri⟩ (some ac) false

/-- A candidate of `connC` for `connP`. -/
def offering : ∀ o : ConnOp, o.Ans :=
  answering connC.uri [] ⟨.candidateOffer, go "candidate"⟩ (some connP) false

end ConnProc
