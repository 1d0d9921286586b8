import OutRelay.ResumeMatcher

/-!
# One splice per resumed pair

The two halves of a resumed stream are joined by one splice, run by the
handler of the half that came second; the handler of the other waits until it
has ended. Two splices on the same streams would each take part of the bytes.

That the expiry goroutine may take what was sent to a parked half does not
touch this: the second half has no expiry goroutine, so its handler always
learns of its peer. `resumeProtocol` says where the two handlers of a pair can
be, relative to each other, whoever else has received; `spliceInv_step` is its
preservation, step by step, with the absence of panics, and
`one_splice_per_pair` what it amounts to over a run.
-/

namespace HandlerPC

/-- The peer the handler of a second half is busy with. -/
def peer? : HandlerPC → Option ℕ
  | .setFlags p | .sendPeer p | .sendSelf p => some p
  | .echoSelf p | .echoPeer p | .splicing p | .release p => some p
  | .recv | .resolve | .waitDone | .returned => none

/-- The handler of a second half has sent on the channel of its peer. -/
def told : HandlerPC → Bool
  | .setFlags _ | .sendPeer _ => false
  | _ => true

/-- The splice has ended. -/
def spliced : HandlerPC → Bool
  | .release _ | .returned => true
  | _ => false

/-- How far the handler of a second half is from the end of its splice. -/
def toSplice : HandlerPC → ℕ
  | .setFlags _ => 8
  | .sendPeer _ => 7
  | .sendSelf _ => 6
  | .recv => 5
  | .resolve => 4
  | .echoSelf _ => 3
  | .echoPeer _ => 2
  | .splicing _ => 1
  | _ => 0

end HandlerPC

/-- The half a splice joined this stream with. -/
def HalfWrite.splicedWith : HalfWrite → Option ℕ
  | .echo _ _ _ => none
  | .spliced peer => some peer

namespace Half

/-- **The splices that ran on the stream of a half**, by the half at the other
end. -/
def splices (h : Half) : List ℕ := h.written.filterMap HalfWrite.splicedWith

/-- The second half of a pair, by where its handler is. -/
def SecondOK (p : ℕ) (a : Half) : Prop :=
  match a.handler with
  | .setFlags q => q = p ∧ a.matched = GoChan.make 1 ∧ a.got = none
  | .sendPeer q => q = p ∧ a.splicer = true ∧ a.matched = GoChan.make 1 ∧ a.got = none
  | .sendSelf q => q = p ∧ a.splicer = true ∧ a.matched = GoChan.make 1 ∧ a.got = none
  | .recv => a.splicer = true ∧ a.matched = ⟨1, [p], false⟩ ∧ a.got = none
  | .resolve => a.splicer = true ∧ a.got = some (some p)
  | .waitDone => False
  | .echoSelf q => q = p ∧ a.got = some (some p)
  | .echoPeer q => q = p ∧ a.got = some (some p)
  | .splicing q => q = p ∧ a.got = some (some p)
  | .release q => q = p ∧ a.got = some (some p)
  | .returned => a.got = some (some p)

/-- The first half of a pair, by where its handler is, and given where the
handler `pc` of the second is. What was sent to it may be on its channel, or
taken by its expiry goroutine. -/
def FirstOK (i : ℕ) (pc : HandlerPC) (b : Half) : Prop :=
  match b.handler with
  | .recv => b.got = none
      ∧ (b.matched = GoChan.make 1 ∨ (pc.told = true ∧ b.matched = ⟨1, [i], false⟩))
  | .resolve => pc.told = true ∧ b.got = some (some i)
  | .waitDone => pc.told = true ∧ b.got = some (some i)
  | .returned => pc = .returned ∧ b.got = some (some i)
  | _ => False

/-- **A matched pair**: the second half `a`, at `i`, and the first half `b`, at
`p`. -/
structure Paired (i p : ℕ) (a b : Half) : Prop where
  fates : a.fate = .matchedWith p ∧ b.fate = .matchedWith i ∧ a.id = b.id ∧ p < i
  goroutines : a.expiry = none ∧ b.expiry ≠ none ∧ b.splicer = false
  done : b.done = some ⟨0, [], decide (a.handler = .returned)⟩
  second : a.SecondOK p
  first : b.FirstOK i a.handler
  splices : a.splices = (if a.handler.spliced then [p] else [])
    ∧ b.splices = (if a.handler.spliced then [i] else [])
  streams : a.streamClosed = a.handler.spliced ∧ b.streamClosed = a.handler.spliced

/-- A half that waits for its peer. -/
structure Waits (a : Half) : Prop where
  handler : a.handler = .recv ∧ a.got = none ∧ a.matched = GoChan.make 1
  goroutines : (a.expiry = some .select ∨ a.expiry = some .fired) ∧ a.splicer = false
  done : a.done = some (GoChan.make 0)
  stream : a.splices = [] ∧ a.streamClosed = false

/-- A half that has expired. -/
structure Discarded (a : Half) : Prop where
  handler : (a.handler = .recv ∧ a.got = none)
    ∨ ((a.handler = .resolve ∨ a.handler = .returned) ∧ a.got = some none)
  channel : a.matched = ⟨1, [], true⟩
  goroutines : a.expiry = some .exited
  stream : a.splices = []

/-- What a half was submitted with. -/
structure SameSubmission (a c : Half) : Prop where
  kind : c.kind = a.kind
  stream : c.id = a.id ∧ c.uri = a.uri
  positions : c.myPos = a.myPos ∧ c.peerAckPos = a.peerAckPos

end Half

/-- **The protocol of a resumed pair.** -/
def resumeProtocol : Rendezvous UInt64 Half where
  key := Half.id
  fate := Half.fate
  Parked := Half.Waits
  Expired := Half.Discarded
  Paired := Half.Paired
  fate_second h := h.fates.1
  fate_first h := h.fates.2.1
  key_eq h := h.fates.2.2.1
  irrefl h := Nat.lt_irrefl _ h.fates.2.2.2

namespace Half

variable {i p : ℕ} {pc pc' : HandlerPC} {a b c d : Half}

theorem SecondOK.peer_eq {q : ℕ} (h : a.SecondOK p) (hpc : a.handler.peer? = some q) : q = p := by
  unfold SecondOK at h
  cases hh : a.handler <;> rw [hh] at h hpc <;> cases hpc <;> exact h.1

theorem FirstOK.peer_eq_none (h : b.FirstOK i pc) : b.handler.peer? = none := by
  unfold FirstOK at h
  cases hh : b.handler <;> rw [hh] at h <;> first | rfl | exact h.elim

/-- The first half may stay where it is while the handler of the second moves
on. -/
theorem FirstOK.mono (h : b.FirstOK i pc) (htold : pc.told = true → pc'.told = true)
    (hret : pc = .returned → pc' = .returned) : b.FirstOK i pc' := by
  unfold FirstOK at h ⊢
  cases hh : b.handler <;> rw [hh] at h
  case recv => exact ⟨h.1, h.2.imp_right (fun h => ⟨htold h.1, h.2⟩)⟩
  case resolve => exact ⟨htold h.1, h.2⟩
  case waitDone => exact ⟨htold h.1, h.2⟩
  case returned => exact ⟨hret h.1, h.2⟩
  all_goals exact h

/-- Before it is told, the first half waits. -/
theorem FirstOK.untold (h : b.FirstOK i pc) (htold : pc.told = false) :
    b.handler = .recv ∧ b.got = none ∧ b.matched = GoChan.make 1 := by
  unfold FirstOK at h
  cases hh : b.handler <;> rw [hh] at h
  case recv =>
    refine ⟨rfl, h.1, h.2.resolve_right (fun hm => ?_)⟩
    cases htold.symm.trans hm.1
  case resolve => cases htold.symm.trans h.1
  case waitDone => cases htold.symm.trans h.1
  case returned =>
    rw [h.1] at htold
    cases htold
  all_goals exact h.elim

/-- A first half whose channel changes under it, while its handler waits there
at most by losing what was sent. -/
theorem FirstOK.took (h : b.FirstOK i pc) (hm : b.handler = .recv → d.matched = b.matched
    ∨ d.matched = GoChan.make 1) (hh : d.handler = b.handler) (hg : d.got = b.got) :
    d.FirstOK i pc := by
  unfold FirstOK at h ⊢
  rw [hh, hg]
  cases hb : b.handler <;> rw [hb] at h
  case recv =>
    refine ⟨h.1, ?_⟩
    rcases hm hb with hm | hm
    · rw [hm]
      exact h.2
    · exact Or.inl hm
  all_goals exact h

/-- While its handler waits, a receive leaves the channel of a first half
empty. -/
theorem FirstOK.recv_empties {r : Option ℕ × GoChan ℕ} (h : b.FirstOK i pc)
    (hrecv : b.matched.recv = .done r) (hh : b.handler = .recv) : r.snd = GoChan.make 1 := by
  unfold FirstOK at h
  rw [hh] at h
  rcases h.2 with hm | ⟨-, hm⟩ <;> rw [hm] at hrecv <;> cases hrecv
  rfl

/-- **The handler of the second half moves on**, short of the splice. -/
theorem Paired.advance (hab : a.Paired i p b) (hfix : c.fate = a.fate ∧ c.id = a.id)
    (hexp : c.expiry = a.expiry) (hspl : c.splices = a.splices)
    (hclosed : c.streamClosed = a.streamClosed)
    (ha : a.handler.spliced = false) (hc : c.handler.spliced = false)
    (htold : a.handler.told = true → c.handler.told = true) (hsecond : c.SecondOK p) :
    c.Paired i p b := by
  have hne : ∀ {pc : HandlerPC}, pc.spliced = false → decide (pc = .returned) = false := by
    rintro pc hpc
    refine decide_eq_false (fun h => ?_)
    rw [h] at hpc
    cases hpc
  obtain ⟨hfates, hgor, hdone, -, hfirst, hs, hst⟩ := hab
  rw [ha] at hs hst
  rw [hne ha] at hdone
  refine ⟨⟨hfix.1.trans hfates.1, hfates.2.1, hfix.2.trans hfates.2.2.1, hfates.2.2.2⟩,
    ⟨hexp.trans hgor.1, hgor.2⟩, ?_, hsecond, hfirst.mono htold (fun h => ?_), ?_, ?_⟩
  · rw [hne hc]
    exact hdone
  · rw [h] at ha
    cases ha
  · rw [hc]
    exact ⟨hspl.trans hs.1, hs.2⟩
  · rw [hc]
    exact ⟨hclosed.trans hst.1, hst.2⟩

/-- **The first half changes**, as far as the second allows it. -/
theorem Paired.follow (hab : a.Paired i p b) (hfix : d.fate = b.fate ∧ d.id = b.id)
    (hexp : d.expiry ≠ none) (hflag : d.splicer = false) (hdone : d.done = b.done)
    (hspl : d.splices = b.splices) (hclosed : d.streamClosed = b.streamClosed)
    (hfirst : d.FirstOK i a.handler) : a.Paired i p d :=
  ⟨⟨hab.fates.1, hfix.1.trans hab.fates.2.1, hab.fates.2.2.1.trans hfix.2.symm, hab.fates.2.2.2⟩,
    ⟨hab.goroutines.1, hexp, hflag⟩, hdone.trans hab.done, hab.second, hfirst,
    ⟨hab.splices.1, hspl.trans hab.splices.2⟩, ⟨hab.streams.1, hclosed.trans hab.streams.2⟩⟩

theorem Paired.ne (hab : a.Paired i p b) : p ≠ i := Nat.ne_of_lt hab.fates.2.2.2

/-- An echo is no splice. -/
theorem splices_echo (w : List HalfWrite) (id my ack : UInt64) :
    (w ++ [HalfWrite.echo id my ack]).filterMap HalfWrite.splicedWith
      = w.filterMap HalfWrite.splicedWith := by
  rw [List.filterMap_append]
  exact List.append_nil _

theorem splices_spliced (w : List HalfWrite) (q : ℕ) :
    (w ++ [HalfWrite.spliced q]).filterMap HalfWrite.splicedWith
      = w.filterMap HalfWrite.splicedWith ++ [q] := by
  rw [List.filterMap_append]
  rfl

end Half

namespace ResumeState

/-- **The halves follow the protocol, and nothing has panicked.** -/
structure SpliceInv (s : ResumeState) : Prop where
  halves : resumeProtocol.Inv (heap s.halves) s.pending
  calm : s.panicked = false

variable {s s' : ResumeState} {i p : ℕ} {a b : Half}

namespace SpliceInv

/-- **A handler that is busy with a peer is that of the second half** of a
pair. -/
theorem second_of_peer (I : s.SpliceInv) (hi : heap s.halves i = some a)
    (hpc : a.handler.peer? = some p) :
    ∃ b, heap s.halves p = some b ∧ a.Paired i p b := by
  have hok := I.halves.party i a hi
  cases hf : a.fate with
  | parked =>
    rw [(hok.parked hf).2.handler.1] at hpc
    cases hpc
  | expired =>
    rcases (hok.expired hf).2.handler with ⟨h, -⟩ | ⟨h | h, -⟩ <;> rw [h] at hpc <;> cases hpc
  | matchedWith q =>
    obtain ⟨-, b, hb, hab | hab⟩ := hok.matched hf
    · obtain rfl := hab.second.peer_eq hpc
      exact ⟨b, hb, hab⟩
    · cases hab.first.peer_eq_none.symm.trans hpc

/-- The second half of a pair changes. -/
theorem setSecond (I : s.SpliceInv) (hi : heap s.halves i = some a) (hp : heap s.halves p = some b)
    (hab : a.Paired i p b) {f : Half → Half} (hfb : (f a).Paired i p b) :
    (s.modifyHalf i f).SpliceInv := by
  refine ⟨?_, I.calm⟩
  rw [heap_modify hi]
  exact I.halves.updateSecond hi hp hab hfb

/-- The first half of a pair changes. -/
theorem setFirst (I : s.SpliceInv) (hi : heap s.halves i = some a) (hp : heap s.halves p = some b)
    (hab : a.Paired i p b) {f : Half → Half} (hfb : a.Paired i p (f b)) :
    (s.modifyHalf p f).SpliceInv := by
  refine ⟨?_, I.calm⟩
  rw [heap_modify hp]
  exact I.halves.updateFirst hi hp hab hfb

/-- Both halves of a pair change. -/
theorem setPair (I : s.SpliceInv) (hi : heap s.halves i = some a) (hp : heap s.halves p = some b)
    (hab : a.Paired i p b) {f g : Half → Half} (hid : (f a).id = a.id ∧ (g b).id = b.id)
    (hfg : (f a).Paired i p (g b)) : ((s.modifyHalf p g).modifyHalf i f).SpliceInv := by
  refine ⟨?_, I.calm⟩
  rw [heap_modify_two hab.ne hp hi]
  exact I.halves.updatePair hi hp hab hid.1 hid.2 hfg

/-- A half that has expired changes. -/
theorem setExpired (I : s.SpliceInv) (hi : heap s.halves i = some a) (hf : a.fate = .expired)
    {f : Half → Half} (hfix : (f a).id = a.id ∧ (f a).fate = a.fate) (hfa : (f a).Discarded) :
    (s.modifyHalf i f).SpliceInv := by
  refine ⟨?_, I.calm⟩
  rw [heap_modify hi]
  exact I.halves.updateExpired hi hf hfix.1 (hfix.2.trans hf) hfa

end SpliceInv

/-! ## The steps -/

/-- Submitting a half. -/
theorem spliceInv_submit (I : s.SpliceInv) (kind : HalfKind) (id : UInt64) (uri : GoString)
    (myPosition peerAckPosition : UInt64) :
    (s.submit kind id uri myPosition peerAckPosition).SpliceInv := by
  unfold submit
  cases hpend : s.pending.get id with
  | none =>
    refine ⟨?_, I.calm⟩
    dsimp only
    rw [heap_append]
    exact I.halves.park (heap_length _) hpend rfl rfl
      ⟨⟨rfl, rfl, rfl⟩, ⟨Or.inl rfl, rfl⟩, rfl, rfl, rfl⟩
  | some peer =>
    refine ⟨?_, I.calm⟩
    obtain ⟨b, hb, hid, hf⟩ := I.halves.waits id peer hpend
    obtain ⟨-, hwait⟩ := (I.halves.party peer b hb).parked hf
    dsimp only
    rw [heap_modify_append hb]
    refine I.halves.pairUp (heap_length _) hb hpend rfl ?_
    have hexp : b.expiry ≠ none := by
      rcases hwait.goroutines.1 with h | h <;> rw [h] <;> exact Option.some_ne_none _
    refine ⟨⟨rfl, rfl, hid.symm, heap_lt hb⟩, ⟨rfl, hexp, hwait.goroutines.2⟩, hwait.done,
      ⟨rfl, rfl, rfl⟩, ?_, ⟨rfl, hwait.stream.1⟩, rfl, hwait.stream.2⟩
    unfold Half.FirstOK
    rw [show ({ b with fate := .matchedWith s.halves.length } : Half).handler = .recv
      from hwait.handler.1]
    exact ⟨hwait.handler.2.1, Or.inl hwait.handler.2.2⟩

/-- **The handler of a second half before its receive**: the flags and the two
sends. -/
theorem spliceInv_submitting (I : s.SpliceInv) (hi : heap s.halves i = some a)
    (hpc : a.handler = .setFlags p ∨ a.handler = .sendPeer p ∨ a.handler = .sendSelf p)
    (hstep : s.handlerStep i a = some s') : s'.SpliceInv := by
  have hpeer : a.handler.peer? = some p := by
    rcases hpc with h | h | h <;> rw [h] <;> rfl
  obtain ⟨b, hp, hab⟩ := I.second_of_peer hi hpeer
  have hsec := hab.second
  unfold Half.SecondOK at hsec
  unfold handlerStep at hstep
  rcases hpc with hh | hh | hh
  · rw [hh] at hsec hstep
    cases hstep
    have hnext : ({ a with splicer := true, handler := .sendPeer p } : Half).Paired i p b :=
      hab.advance ⟨rfl, rfl⟩ rfl rfl rfl (by rw [hh]; rfl) rfl (by rw [hh]; intro h; cases h)
        ⟨rfl, rfl, hsec.2⟩
    refine SpliceInv.setFirst (I.setSecond hi hp hab hnext) ?_ ?_ hnext
      (hnext.follow ⟨rfl, rfl⟩ hab.goroutines.2.1 rfl rfl rfl rfl hnext.first)
    · rw [heap_modify hi, Function.update_self]
    · rw [heap_modify hi, Function.update_of_ne hab.ne, hp]
  · rw [hh] at hsec hstep
    obtain ⟨hbpc, hbgot, hbm⟩ := hab.first.untold (by rw [hh]; rfl)
    dsimp only at hstep
    rw [show s.halves[p]? = some b from hp, Option.bind_some, hbm] at hstep
    cases hstep
    refine I.setPair hi hp hab ⟨rfl, rfl⟩ ?_
    have hnext : ({ a with handler := .sendSelf p } : Half).Paired i p b :=
      hab.advance ⟨rfl, rfl⟩ rfl rfl rfl (by rw [hh]; rfl) rfl (fun _ => rfl) ⟨rfl, hsec.2⟩
    refine hnext.follow ⟨rfl, rfl⟩ hab.goroutines.2.1 hab.goroutines.2.2 rfl rfl rfl ?_
    unfold Half.FirstOK
    rw [show ({ b with matched := ⟨1, [i], false⟩ } : Half).handler = .recv from hbpc]
    exact ⟨hbgot, Or.inr ⟨rfl, rfl⟩⟩
  · rw [hh] at hsec hstep
    dsimp only at hstep
    rw [hsec.2.2.1] at hstep
    cases hstep
    exact I.setSecond hi hp hab (hab.advance ⟨rfl, rfl⟩ rfl rfl rfl (by rw [hh]; rfl) rfl
      (fun _ => rfl) ⟨hsec.2.1, rfl, hsec.2.2.2⟩)

/-- **A receive on the channel of a half.** It has expired and the channel is
closed, or it is the second of a pair and gets its peer, or the first. -/
theorem recv_cases (I : s.SpliceInv) (hi : heap s.halves i = some a) (hh : a.handler = .recv)
    {o : Option ℕ} {c : GoChan ℕ} (hrecv : a.matched.recv = .done (o, c)) :
    (a.fate = .expired ∧ a.Discarded ∧ o = none ∧ c = a.matched)
    ∨ (∃ p b, heap s.halves p = some b ∧ a.Paired i p b ∧ a.splicer = true ∧ o = some p)
    ∨ (∃ j b, heap s.halves j = some b ∧ b.Paired j i a ∧ b.handler.told = true ∧ o = some j) := by
  have hempty : ∀ {c₀ : GoChan ℕ}, c₀ = GoChan.make 1 → c₀.recv ≠ .done (o, c) := by
    rintro _ rfl h
    cases h
  have hok := I.halves.party i a hi
  cases hf : a.fate with
  | parked => exact absurd hrecv (hempty (hok.parked hf).2.handler.2.2)
  | expired =>
    have hd := (hok.expired hf).2
    rw [hd.channel] at hrecv
    cases hrecv
    exact Or.inl ⟨rfl, hd, rfl, hd.channel.symm⟩
  | matchedWith q =>
    obtain ⟨-, b, hb, hab | hab⟩ := hok.matched hf
    · have hsec := hab.second
      unfold Half.SecondOK at hsec
      rw [hh] at hsec
      rw [hsec.2.1] at hrecv
      cases hrecv
      exact Or.inr (Or.inl ⟨q, b, hb, hab, hsec.1, rfl⟩)
    · have hfirst := hab.first
      unfold Half.FirstOK at hfirst
      rw [hh] at hfirst
      rcases hfirst.2 with hm | ⟨htold, hm⟩
      · exact absurd hrecv (hempty hm)
      · rw [hm] at hrecv
        cases hrecv
        exact Or.inr (Or.inr ⟨q, b, hb, hab, htold, rfl⟩)

/-- The handler receives. -/
theorem spliceInv_recv (I : s.SpliceInv) (hi : heap s.halves i = some a) (hh : a.handler = .recv)
    (hstep : s.handlerStep i a = some s') : s'.SpliceInv := by
  unfold handlerStep at hstep
  rw [hh] at hstep
  obtain ⟨⟨o, c⟩, hrecv, rfl⟩ := GoChan.of_recv_andThen hstep
  rcases recv_cases I hi hh hrecv with
    ⟨hf, hd, rfl, rfl⟩ | ⟨p, b, hp, hab, hflag, rfl⟩ | ⟨j, b, hj, hba, htold, rfl⟩
  · exact I.setExpired hi hf ⟨rfl, rfl⟩
      ⟨Or.inr ⟨Or.inl rfl, rfl⟩, hd.channel, hd.goroutines, hd.stream⟩
  · exact I.setSecond hi hp hab (hab.advance ⟨rfl, rfl⟩ rfl rfl rfl (by rw [hh]; rfl) rfl
      (fun _ => rfl) ⟨hflag, rfl⟩)
  · exact I.setFirst hj hi hba (hba.follow ⟨rfl, rfl⟩ hba.goroutines.2.1 hba.goroutines.2.2 rfl
      rfl rfl ⟨htold, rfl⟩)

/-- The handler goes on with what it received. -/
theorem spliceInv_resolve (I : s.SpliceInv) (hi : heap s.halves i = some a)
    (hh : a.handler = .resolve) (hstep : s.handlerStep i a = some s') : s'.SpliceInv := by
  unfold handlerStep at hstep
  rw [hh] at hstep
  dsimp only at hstep
  have hok := I.halves.party i a hi
  cases hf : a.fate with
  | parked =>
    rw [(hok.parked hf).2.handler.1] at hh
    cases hh
  | expired =>
    have hd := (hok.expired hf).2
    have hgot : a.got = some none := by
      rcases hd.handler with ⟨h, -⟩ | ⟨-, h⟩
      · cases hh.symm.trans h
      · exact h
    rw [hgot] at hstep
    cases hstep
    exact I.setExpired hi hf ⟨rfl, rfl⟩
      ⟨Or.inr ⟨Or.inr rfl, hgot⟩, hd.channel, hd.goroutines, hd.stream⟩
  | matchedWith q =>
    obtain ⟨-, b, hb, hab | hab⟩ := hok.matched hf
    · have hsec := hab.second
      unfold Half.SecondOK at hsec
      rw [hh] at hsec
      rw [hsec.2] at hstep
      simp only [hsec.1, not_true_eq_false, if_false] at hstep
      -- a `STREAM_RESUME` half writes the echoes first
      cases hk : a.kind <;> rw [hk] at hstep <;> cases hstep
      · exact I.setSecond hi hb hab (hab.advance ⟨rfl, rfl⟩ rfl rfl rfl (by rw [hh]; rfl) rfl
          (fun _ => rfl) ⟨rfl, hsec.2⟩)
      · exact I.setSecond hi hb hab (hab.advance ⟨rfl, rfl⟩ rfl rfl rfl (by rw [hh]; rfl) rfl
          (fun _ => rfl) ⟨rfl, hsec.2⟩)
    · have hfirst := hab.first
      unfold Half.FirstOK at hfirst
      rw [hh] at hfirst
      rw [hfirst.2] at hstep
      simp only [hab.goroutines.2.2, Bool.false_eq_true, not_false_eq_true, if_true] at hstep
      cases hstep
      exact I.setFirst hb hi hab (hab.follow ⟨rfl, rfl⟩ hab.goroutines.2.1 hab.goroutines.2.2 rfl
        rfl rfl hfirst)

/-- The handler of a first half waits for the end of the splice. -/
theorem spliceInv_waitDone (I : s.SpliceInv) (hi : heap s.halves i = some a)
    (hh : a.handler = .waitDone) (hstep : s.handlerStep i a = some s') : s'.SpliceInv := by
  unfold handlerStep at hstep
  rw [hh] at hstep
  dsimp only at hstep
  have hok := I.halves.party i a hi
  cases hf : a.fate with
  | parked =>
    rw [(hok.parked hf).2.handler.1] at hh
    cases hh
  | expired =>
    rcases (hok.expired hf).2.handler with ⟨h, -⟩ | ⟨h | h, -⟩ <;> cases hh.symm.trans h
  | matchedWith q =>
    obtain ⟨-, b, hb, hab | hab⟩ := hok.matched hf
    · have hsec := hab.second
      unfold Half.SecondOK at hsec
      rw [hh] at hsec
      exact hsec.elim
    · have hfirst := hab.first
      unfold Half.FirstOK at hfirst
      rw [hh] at hfirst
      rw [hab.done] at hstep
      by_cases hret : b.handler = .returned
      · rw [decide_eq_true hret] at hstep
        cases hstep
        refine I.setFirst hb hi hab ?_
        have hclosed : a.streamClosed = true := by
          rw [hab.streams.2, hret]
          rfl
        exact hab.follow ⟨rfl, rfl⟩ hab.goroutines.2.1 hab.goroutines.2.2 rfl rfl hclosed.symm
          ⟨hret, hfirst.2⟩
      · rw [decide_eq_false hret] at hstep
        cases hstep

/-- **The splice and what surrounds it**: the two echoes, the splice, the
release of the first half. -/
theorem spliceInv_splicing (I : s.SpliceInv) (hi : heap s.halves i = some a)
    (hpc : a.handler = .echoSelf p ∨ a.handler = .echoPeer p ∨ a.handler = .splicing p
      ∨ a.handler = .release p)
    (hstep : s.handlerStep i a = some s') : s'.SpliceInv := by
  have hpeer : a.handler.peer? = some p := by
    rcases hpc with h | h | h | h <;> rw [h] <;> rfl
  obtain ⟨b, hp, hab⟩ := I.second_of_peer hi hpeer
  have hget : s.halves[p]? = some b := hp
  have hsec := hab.second
  unfold Half.SecondOK at hsec
  unfold handlerStep at hstep
  rcases hpc with hh | hh | hh | hh
  · rw [hh] at hsec hstep
    dsimp only at hstep
    rw [hget] at hstep
    cases hstep
    exact I.setSecond hi hp hab (hab.advance ⟨rfl, rfl⟩ rfl (Half.splices_echo _ _ _ _) rfl
      (by rw [hh]; rfl) rfl (fun _ => rfl) hsec)
  · rw [hh] at hsec hstep
    cases hstep
    refine I.setPair hi hp hab ⟨rfl, rfl⟩ ?_
    have hnext : ({ a with handler := .splicing p } : Half).Paired i p b :=
      hab.advance ⟨rfl, rfl⟩ rfl rfl rfl (by rw [hh]; rfl) rfl (fun _ => rfl) hsec
    exact hnext.follow ⟨rfl, rfl⟩ hab.goroutines.2.1 hab.goroutines.2.2 rfl
      (Half.splices_echo _ _ _ _) rfl hnext.first
  · have hspl := hab.splices
    have hdone := hab.done
    rw [hh] at hsec hstep hspl hdone
    cases hstep
    refine I.setPair hi hp hab ⟨rfl, rfl⟩
      ⟨hab.fates, hab.goroutines, hdone, hsec, ?_, ⟨?_, ?_⟩, rfl, rfl⟩
    · exact hab.first.mono (fun _ => rfl) (fun h => by cases hh.symm.trans h)
    · exact (Half.splices_spliced _ _).trans (congrArg (· ++ [p]) hspl.1)
    · exact (Half.splices_spliced _ _).trans (congrArg (· ++ [i]) hspl.2)
  · have hspl := hab.splices
    have hst := hab.streams
    have hdone := hab.done
    rw [hh] at hsec hstep hspl hst hdone
    dsimp only at hstep
    rw [hget, Option.bind_some, hdone] at hstep
    cases hstep
    exact I.setPair hi hp hab ⟨rfl, rfl⟩ ⟨hab.fates, hab.goroutines, rfl, hsec.2,
      hab.first.mono (fun _ => rfl) (fun _ => rfl), hspl, hst⟩

/-- **A step of a handler.** -/
theorem spliceInv_handler (I : s.SpliceInv) (hi : heap s.halves i = some a)
    (hstep : s.handlerStep i a = some s') : s'.SpliceInv := by
  cases hh : a.handler with
  | setFlags p => exact spliceInv_submitting I hi (Or.inl hh) hstep
  | sendPeer p => exact spliceInv_submitting I hi (Or.inr (Or.inl hh)) hstep
  | sendSelf p => exact spliceInv_submitting I hi (Or.inr (Or.inr hh)) hstep
  | recv => exact spliceInv_recv I hi hh hstep
  | resolve => exact spliceInv_resolve I hi hh hstep
  | waitDone => exact spliceInv_waitDone I hi hh hstep
  | echoSelf p => exact spliceInv_splicing I hi (Or.inl hh) hstep
  | echoPeer p => exact spliceInv_splicing I hi (Or.inr (Or.inl hh)) hstep
  | splicing p => exact spliceInv_splicing I hi (Or.inr (Or.inr (Or.inl hh))) hstep
  | release p => exact spliceInv_splicing I hi (Or.inr (Or.inr (Or.inr hh))) hstep
  | returned =>
    unfold handlerStep at hstep
    rw [hh] at hstep
    cases hstep

/-- A half whose expiry goroutine runs waits, or is the first of a pair. -/
theorem first_of_expiry (I : s.SpliceInv) (hi : heap s.halves i = some a) {x : ExpiryPC}
    (hx : a.expiry = some x) (hne : x ≠ .exited) :
    (a.fate = .parked ∧ a.Waits ∧ s.pending.get a.id = some i)
      ∨ ∃ j b, heap s.halves j = some b ∧ b.Paired j i a ∧ s.pending.get a.id ≠ some i := by
  have hok := I.halves.party i a hi
  cases hf : a.fate with
  | parked =>
    obtain ⟨hpend, hwait⟩ := hok.parked hf
    exact Or.inl ⟨rfl, hwait, hpend⟩
  | expired =>
    cases hx.symm.trans (hok.expired hf).2.goroutines
    exact absurd rfl hne
  | matchedWith q =>
    obtain ⟨hpend, b, hb, hab | hab⟩ := hok.matched hf
    · cases hab.goroutines.1.symm.trans hx
    · exact Or.inr ⟨q, b, hb, hab, hpend⟩

/-- The expiry goroutine receives, and takes what was sent to the handler. -/
theorem spliceInv_expiryRecv (I : s.SpliceInv) (hi : heap s.halves i = some a)
    (hstep : s.expiryRecv i a = some s') : s'.SpliceInv := by
  unfold expiryRecv at hstep
  split_ifs at hstep with hsel
  obtain ⟨r, hrecv, rfl⟩ := GoChan.of_recv_andThen hstep
  rcases first_of_expiry I hi hsel (by decide) with ⟨-, hwait, -⟩ | ⟨j, b, hj, hba, -⟩
  · rw [hwait.handler.2.2] at hrecv
    cases hrecv
  · refine I.setFirst hj hi hba (hba.follow ⟨rfl, rfl⟩ (Option.some_ne_none _)
      hba.goroutines.2.2 rfl rfl rfl ?_)
    exact hba.first.took (fun hh => Or.inr (hba.first.recv_empties hrecv hh)) rfl rfl

/-- The timer of a half fires. -/
theorem spliceInv_timerFire (I : s.SpliceInv) (hi : heap s.halves i = some a)
    (hstep : s.timerFire i a = some s') : s'.SpliceInv := by
  unfold timerFire at hstep
  split_ifs at hstep with hsel
  cases hstep
  rcases first_of_expiry I hi hsel (by decide) with ⟨hf, hwait, -⟩ | ⟨j, b, hj, hba, -⟩
  · refine ⟨?_, I.calm⟩
    rw [heap_modify hi]
    exact I.halves.updateParked hi hf rfl hf
      ⟨hwait.handler, ⟨Or.inr rfl, hwait.goroutines.2⟩, hwait.done, hwait.stream⟩
  · exact I.setFirst hj hi hba (hba.follow ⟨rfl, rfl⟩ (Option.some_ne_none _) hba.goroutines.2.2 rfl
      rfl rfl (hba.first.took (fun _ => Or.inl rfl) rfl rfl))

/-- The critical section of the expiry goroutine. -/
theorem spliceInv_expire (I : s.SpliceInv) (hi : heap s.halves i = some a)
    (hstep : s.expire i a = some s') : s'.SpliceInv := by
  unfold expire at hstep
  split_ifs at hstep with hfired hpend
  · rcases first_of_expiry I hi hfired (by decide) with ⟨-, hwait, -⟩ | ⟨j, b, -, -, hleft⟩
    · rw [hwait.handler.2.2] at hstep
      cases hstep
      refine ⟨?_, I.calm⟩
      show resumeProtocol.Inv (heap (s.modifyHalf i _).halves) _
      rw [heap_modify hi]
      exact I.halves.discard hi hpend rfl rfl
        ⟨Or.inl ⟨hwait.handler.1, hwait.handler.2.1⟩, rfl, rfl, hwait.stream.1⟩
    · exact absurd hpend hleft
  · cases hstep
    rcases first_of_expiry I hi hfired (by decide) with ⟨-, -, hwait⟩ | ⟨j, b, hj, hba, -⟩
    · exact absurd hwait hpend
    · exact I.setFirst hj hi hba (hba.follow ⟨rfl, rfl⟩ (Option.some_ne_none _)
        hba.goroutines.2.2 rfl rfl rfl (hba.first.took (fun _ => Or.inl rfl) rfl rfl))

/-- **Every step keeps the protocol, and none panics.** -/
theorem spliceInv_step {e : ResumeEvent} (I : s.SpliceInv) (hstep : s.step e = some s') :
    s'.SpliceInv := by
  unfold step at hstep
  rw [I.calm, if_neg Bool.false_ne_true] at hstep
  cases e with
  | submit kind id uri myPosition peerAckPosition =>
    cases hstep
    exact spliceInv_submit I kind id uri myPosition peerAckPosition
  | handler i =>
    obtain ⟨a, hi, hstep⟩ := Option.bind_eq_some_iff.mp hstep
    exact spliceInv_handler I hi hstep
  | expiryRecv i =>
    obtain ⟨a, hi, hstep⟩ := Option.bind_eq_some_iff.mp hstep
    exact spliceInv_expiryRecv I hi hstep
  | timerFire i =>
    obtain ⟨a, hi, hstep⟩ := Option.bind_eq_some_iff.mp hstep
    exact spliceInv_timerFire I hi hstep
  | expire i =>
    obtain ⟨a, hi, hstep⟩ := Option.bind_eq_some_iff.mp hstep
    exact spliceInv_expire I hi hstep

/-- The protocol is kept in every reachable state. -/
theorem spliceInv_of_reachable (hs : resumeMachine.Reachable s) : s.SpliceInv := by
  refine hs.invariant ⟨?_, rfl⟩ (fun _ I hstep => spliceInv_step I hstep)
  exact resumeProtocol.inv_empty

/-! ## What a step leaves of a half -/

/-- **What the event settles**: the fate of a half that its expiry goroutine
takes out, and of the two that a `Submit` makes a pair of. -/
def Settles (s : ResumeState) (e : ResumeEvent) (i : ℕ) (f : Fate) : Prop :=
  (f = .expired ∧ e = .expire i)
    ∨ ∃ kind id uri my ack p, e = .submit kind id uri my ack ∧ s.pending.get id = some p
      ∧ ((i = p ∧ f = .matchedWith s.halves.length)
        ∨ (i = s.halves.length ∧ f = .matchedWith p))

/-- **Who comes**: a half with what the event submits. -/
def Comes (e : ResumeEvent) (a : Half) : Prop :=
  ∃ my ack, e = .submit a.kind a.id a.uri my ack

/-- The halves keep what they were submitted with, and their fates, up to what
is in `x`; halves of `N` may come. -/
def Evolves (N : Half → Prop) (x : ℕ → Fate → Prop) (s s' : ResumeState) : Prop :=
  resumeProtocol.Evolves Half.SameSubmission N x (heap s.halves) (heap s'.halves)

namespace Evolves

variable {N : Half → Prop} {x : ℕ → Fate → Prop} {s'' : ResumeState}

theorem of_halves_eq (h : s'.halves = s.halves) : s.Evolves N x s' := by
  unfold Evolves
  rw [h]
  exact .refl (fun _ => ⟨rfl, ⟨rfl, rfl⟩, rfl, rfl⟩) _

/-- No half comes, after all. -/
theorem mono (h : s.Evolves (fun _ => False) x s') : s.Evolves N x s' :=
  Rendezvous.Evolves.mono h (fun _ _ h => h) (fun _ h => h.elim)

theorem trans (h : s.Evolves (fun _ => False) x s')
    (h' : s'.Evolves (fun _ => False) (fun _ _ => False) s'') :
    s.Evolves (fun _ => False) x s'' := by
  refine Rendezvous.Evolves.trans (fun a b c hab hbc => ?_) h h'
  exact ⟨hbc.kind.trans hab.kind,
    ⟨hbc.stream.1.trans hab.stream.1, hbc.stream.2.trans hab.stream.2⟩,
    hbc.positions.1.trans hab.positions.1, hbc.positions.2.trans hab.positions.2⟩

theorem modifyHalf {f : Half → Half}
    (hf : ∀ a, heap s.halves i = some a → a.SameSubmission (f a)
      ∧ ((f a).fate = a.fate ∨ (a.fate = .parked ∧ x i (f a).fate))) :
    s.Evolves N x (s.modifyHalf i f) := by
  cases hi : heap s.halves i with
  | none => exact of_halves_eq (List.modify_eq_self (List.getElem?_eq_none_iff.mp hi))
  | some a =>
    unfold Evolves
    rw [heap_modify hi]
    exact .update (fun _ => ⟨rfl, ⟨rfl, rfl⟩, rfl, rfl⟩) hi (hf a hi).1 (hf a hi).2

/-- An update that touches neither what was submitted nor the fate. -/
theorem tweak {f : Half → Half} (hf : ∀ a : Half, a.SameSubmission (f a) ∧ (f a).fate = a.fate) :
    s.Evolves N x (s.modifyHalf i f) :=
  modifyHalf (fun a _ => (hf a).imp_right Or.inl)

theorem tweak_two {f g : Half → Half}
    (hg : ∀ a : Half, a.SameSubmission (g a) ∧ (g a).fate = a.fate)
    (hf : ∀ a : Half, a.SameSubmission (f a) ∧ (f a).fate = a.fate) :
    s.Evolves N x ((s.modifyHalf p g).modifyHalf i f) := ((tweak hg).trans (tweak hf)).mono

theorem afterChan {β : Type} {r : ChanResult β} {k : β → ResumeState}
    (hs : s.afterChan r k = some s') (hk : ∀ m, s.Evolves N x (k m)) : s.Evolves N x s' :=
  ChanResult.andThen_rule hs (of_halves_eq rfl) hk

/-- A half is submitted. -/
theorem submit (I : s.SpliceInv) (kind : HalfKind) (id : UInt64) (uri : GoString)
    (my ack : UInt64) :
    s.Evolves (Comes (.submit kind id uri my ack)) (s.Settles (.submit kind id uri my ack))
      (s.submit kind id uri my ack) := by
  unfold ResumeState.submit Evolves
  cases hpend : s.pending.get id with
  | none =>
    dsimp only
    rw [heap_append]
    exact .come (.refl (fun _ => ⟨rfl, ⟨rfl, rfl⟩, rfl, rfl⟩) _) (heap_length _) ⟨my, ack, rfl⟩
      (Or.inl rfl)
  | some peer =>
    obtain ⟨b, hb, -, hparked⟩ := I.halves.waits id peer hpend
    dsimp only
    rw [heap_modify_append hb]
    refine .come (.update (fun _ => ⟨rfl, ⟨rfl, rfl⟩, rfl, rfl⟩) hb ⟨rfl, ⟨rfl, rfl⟩, rfl, rfl⟩
      (Or.inr ⟨hparked, ?_⟩)) (heap_length _) ⟨my, ack, rfl⟩ (Or.inr ?_)
    · exact Or.inr ⟨kind, id, uri, my, ack, peer, rfl, hpend, Or.inl ⟨rfl, rfl⟩⟩
    · exact Or.inr ⟨kind, id, uri, my, ack, peer, rfl, hpend, Or.inr ⟨rfl, rfl⟩⟩

/-- A step of a handler settles nothing. -/
theorem handler (hstep : s.handlerStep i a = some s') : s.Evolves N x s' := by
  unfold handlerStep at hstep
  cases hh : a.handler <;> rw [hh] at hstep <;> dsimp only at hstep
  case setFlags q =>
    cases hstep
    exact tweak_two (fun _ => ⟨⟨rfl, ⟨rfl, rfl⟩, rfl, rfl⟩, rfl⟩)
      (fun _ => ⟨⟨rfl, ⟨rfl, rfl⟩, rfl, rfl⟩, rfl⟩)
  case sendPeer q =>
    obtain ⟨peer, -, hstep⟩ := Option.bind_eq_some_iff.mp hstep
    exact afterChan hstep (fun m => tweak_two (fun _ => ⟨⟨rfl, ⟨rfl, rfl⟩, rfl, rfl⟩, rfl⟩)
      (fun _ => ⟨⟨rfl, ⟨rfl, rfl⟩, rfl, rfl⟩, rfl⟩))
  case sendSelf q =>
    exact afterChan hstep (fun m => tweak (fun _ => ⟨⟨rfl, ⟨rfl, rfl⟩, rfl, rfl⟩, rfl⟩))
  case recv =>
    exact afterChan hstep (fun m => tweak (fun _ => ⟨⟨rfl, ⟨rfl, rfl⟩, rfl, rfl⟩, rfl⟩))
  case resolve =>
    split at hstep
    · split_ifs at hstep
      · split at hstep <;> cases hstep <;>
          exact tweak (fun _ => ⟨⟨rfl, ⟨rfl, rfl⟩, rfl, rfl⟩, rfl⟩)
      · cases hstep
        exact tweak (fun _ => ⟨⟨rfl, ⟨rfl, rfl⟩, rfl, rfl⟩, rfl⟩)
    · cases hstep
      exact tweak (fun _ => ⟨⟨rfl, ⟨rfl, rfl⟩, rfl, rfl⟩, rfl⟩)
  case waitDone =>
    split at hstep
    · cases hstep
    · exact afterChan hstep (fun m => tweak (fun _ => ⟨⟨rfl, ⟨rfl, rfl⟩, rfl, rfl⟩, rfl⟩))
  case echoSelf q =>
    obtain ⟨peer, -, hstep⟩ := Option.bind_eq_some_iff.mp hstep
    cases hstep
    exact tweak (fun _ => ⟨⟨rfl, ⟨rfl, rfl⟩, rfl, rfl⟩, rfl⟩)
  case echoPeer q =>
    cases hstep
    exact tweak_two (fun _ => ⟨⟨rfl, ⟨rfl, rfl⟩, rfl, rfl⟩, rfl⟩)
      (fun _ => ⟨⟨rfl, ⟨rfl, rfl⟩, rfl, rfl⟩, rfl⟩)
  case splicing q =>
    cases hstep
    exact tweak_two (fun _ => ⟨⟨rfl, ⟨rfl, rfl⟩, rfl, rfl⟩, rfl⟩)
      (fun _ => ⟨⟨rfl, ⟨rfl, rfl⟩, rfl, rfl⟩, rfl⟩)
  case release q =>
    obtain ⟨peer, -, hstep⟩ := Option.bind_eq_some_iff.mp hstep
    split at hstep
    · cases hstep
      exact of_halves_eq rfl
    · exact afterChan hstep (fun m => tweak_two (fun _ => ⟨⟨rfl, ⟨rfl, rfl⟩, rfl, rfl⟩, rfl⟩)
        (fun _ => ⟨⟨rfl, ⟨rfl, rfl⟩, rfl, rfl⟩, rfl⟩))
  case returned => cases hstep

end Evolves

/-- **What a step leaves of the halves**, and what it settles. -/
theorem evolves_step {e : ResumeEvent} (I : s.SpliceInv) (hstep : s.step e = some s') :
    s.Evolves (Comes e) (s.Settles e) s' := by
  unfold step at hstep
  rw [if_neg (by rw [I.calm]; exact Bool.false_ne_true)] at hstep
  cases e with
  | submit kind id uri my ack =>
    cases hstep
    exact .submit I kind id uri my ack
  | handler i =>
    obtain ⟨a, -, hstep⟩ := Option.bind_eq_some_iff.mp hstep
    exact .handler hstep
  | expiryRecv i =>
    obtain ⟨a, -, hstep⟩ := Option.bind_eq_some_iff.mp hstep
    unfold expiryRecv at hstep
    split_ifs at hstep
    exact .afterChan hstep (fun m => .tweak (fun _ => ⟨⟨rfl, ⟨rfl, rfl⟩, rfl, rfl⟩, rfl⟩))
  | timerFire i =>
    obtain ⟨a, -, hstep⟩ := Option.bind_eq_some_iff.mp hstep
    unfold timerFire at hstep
    split_ifs at hstep
    cases hstep
    exact .tweak (fun _ => ⟨⟨rfl, ⟨rfl, rfl⟩, rfl, rfl⟩, rfl⟩)
  | expire i =>
    obtain ⟨a, -, hstep⟩ := Option.bind_eq_some_iff.mp hstep
    unfold expire at hstep
    split_ifs at hstep with hfired hpend
    · refine .afterChan hstep (fun m => .modifyHalf (fun b hb => ⟨⟨rfl, ⟨rfl, rfl⟩, rfl, rfl⟩, ?_⟩))
      exact Or.inr ⟨(I.halves.key_of_waiting hb hpend).2, Or.inl ⟨rfl, rfl⟩⟩
    · cases hstep
      exact .tweak (fun _ => ⟨⟨rfl, ⟨rfl, rfl⟩, rfl, rfl⟩, rfl⟩)

/-- Halves come only by a `Submit`, and stay. -/
theorem length_step {e : ResumeEvent} (I : s.SpliceInv)
    (hne : ∀ kind id uri my ack, e ≠ .submit kind id uri my ack) (hstep : s.step e = some s') :
    s'.halves.length = s.halves.length := by
  have hevol := evolves_step I hstep
  refine Nat.le_antisymm (Nat.le_of_not_lt fun hlt => ?_) (Nat.le_of_not_lt fun hlt => ?_)
  · obtain ⟨⟨my, ack, he⟩, -⟩ := hevol.new s.halves.length _ (heap_length _)
      (List.getElem?_eq_getElem hlt)
    exact hne _ _ _ _ _ he
  · obtain ⟨c, hc, -⟩ := hevol.old s'.halves.length _ (List.getElem?_eq_getElem hlt)
    rw [heap_length] at hc
    cases hc

theorem length_submit {kind : HalfKind} {id my ack : UInt64}
    {uri : GoString} : (s.submit kind id uri my ack).halves.length = s.halves.length + 1 := by
  unfold submit
  dsimp only
  split <;> simp

/-! ## The splice is run -/

/-- **The handler of a second half is never stuck before its splice has ended**,
and each of its steps brings it nearer. -/
theorem handler_progress (I : s.SpliceInv) (hi : heap s.halves i = some a)
    (hp : heap s.halves p = some b) (hab : a.Paired i p b) (hnot : a.handler.spliced = false) :
    ∃ s' c, s.step (.handler i) = some s' ∧ heap s'.halves i = some c
      ∧ c.handler.toSplice < a.handler.toSplice := by
  have hstep : s.step (.handler i) = s.handlerStep i a := by
    unfold step
    rw [I.calm, if_neg Bool.false_ne_true]
    show (heap s.halves i).bind _ = _
    rw [hi]
    rfl
  have hget : s.halves[p]? = some b := hp
  have hself : ∀ f : Half → Half, heap (s.modifyHalf i f).halves i = some (f a) := by
    intro f
    rw [heap_modify hi, Function.update_self]
  have hafter : ∀ f g : Half → Half,
      heap ((s.modifyHalf p g).modifyHalf i f).halves i = some (f a) := by
    intro f g
    rw [heap_modify_two hab.ne hp hi, Function.update_self]
  have hbefore : ∀ f g : Half → Half,
      heap ((s.modifyHalf i f).modifyHalf p g).halves i = some (f a) := by
    intro f g
    rw [heap_modify_two hab.ne.symm hi hp, Function.update_of_ne hab.ne.symm,
      Function.update_self]
  have hsec := hab.second
  unfold Half.SecondOK at hsec
  rw [hstep]
  unfold handlerStep
  cases hh : a.handler <;> rw [hh] at hsec hnot <;> dsimp only
  case setFlags q =>
    obtain ⟨rfl, -⟩ := hsec
    exact ⟨_, _, rfl, hbefore _ _, Nat.lt_succ_self _⟩
  case sendPeer q =>
    obtain ⟨rfl, -⟩ := hsec
    rw [hget, Option.bind_some, (hab.first.untold (by rw [hh]; rfl)).2.2]
    exact ⟨_, _, rfl, hafter _ _, Nat.lt_succ_self _⟩
  case sendSelf q =>
    rw [hsec.2.2.1]
    exact ⟨_, _, rfl, hself _, Nat.lt_succ_self _⟩
  case recv =>
    rw [hsec.2.1]
    exact ⟨_, _, rfl, hself _, Nat.lt_succ_self _⟩
  case resolve =>
    rw [hsec.2]
    dsimp only
    rw [hsec.1, if_neg (not_not.mpr rfl)]
    cases a.kind
    · exact ⟨_, _, rfl, hself _, Nat.lt_succ_self _⟩
    · exact ⟨_, _, rfl, hself _, show 1 < 4 by decide⟩
  case waitDone => exact hsec.elim
  case echoSelf q =>
    obtain ⟨rfl, -⟩ := hsec
    rw [hget, Option.bind_some]
    exact ⟨_, _, rfl, hself _, Nat.lt_succ_self _⟩
  case echoPeer q =>
    obtain ⟨rfl, -⟩ := hsec
    exact ⟨_, _, rfl, hafter _ _, Nat.lt_succ_self _⟩
  case splicing q =>
    obtain ⟨rfl, -⟩ := hsec
    exact ⟨_, _, rfl, hafter _ _, Nat.lt_succ_self _⟩
  case release q => cases hnot
  case returned => cases hnot

/-- **From any state on, the handler of a second half runs its splice**: some
number of its own steps, with nobody else's, takes it past the splice. -/
theorem splice_runs (I : s.SpliceInv) (hi : heap s.halves i = some a)
    (hp : heap s.halves p = some b) (hab : a.Paired i p b) :
    ∃ n s' c, resumeMachine.run (List.replicate n (.handler i)) s = some s'
      ∧ heap s'.halves i = some c ∧ c.splices = [p] := by
  -- by induction on how far the handler is from the end of the splice
  induction hn : a.handler.toSplice using Nat.strong_induction_on generalizing s a b with
  | _ n ih =>
    cases hspl : a.handler.spliced with
    | true =>
      refine ⟨0, s, a, rfl, hi, ?_⟩
      rw [hab.splices.1, hspl, if_pos rfl]
    | false =>
      obtain ⟨s₁, c, hstep, hc, hlt⟩ := handler_progress I hi hp hab hspl
      have I₁ := spliceInv_step I hstep
      obtain ⟨a', ha', -, hfa⟩ := (evolves_step I hstep).settled hi
        (fun h => by cases h.symm.trans hab.fates.1)
      cases hc.symm.trans ha'
      have hfate : c.fate = .matchedWith p := hfa.trans hab.fates.1
      obtain ⟨b₁, hb₁, -, hab₁⟩ := I₁.halves.partner hc hfate
      have hab₁ : c.Paired i p b₁ := by
        rcases hab₁ with h | h
        · exact h
        · exact absurd h.fates.2.2.2 (Nat.lt_asymm hab.fates.2.2.2)
      obtain ⟨m, s', d, hrun, hd⟩ := ih _ (hn ▸ hlt) I₁ hc hb₁ hab₁ rfl
      refine ⟨m + 1, s', d, ?_, hd⟩
      rw [List.replicate_succ]
      show (s.step (.handler i)).bind _ = _
      rw [hstep]
      exact hrun

/-- **Exactly one splice per pair**, as a state shows it. -/
structure SpliceOnce (s : ResumeState) : Prop where
  /-- No channel has been closed twice or while nil, or sent on after its
  close. -/
  calm : s.panicked = false
  /-- A matched half has one partner, of the same stream, whose partner it is. -/
  partner : ∀ (i p : ℕ) (a : Half), s.halves[i]? = some a → a.fate = .matchedWith p →
    ∃ b, s.halves[p]? = some b ∧ b.fate = .matchedWith i ∧ b.id = a.id ∧ p ≠ i
  /-- What a handler receives is its partner, or that its half has expired. -/
  told : ∀ (i : ℕ) (a : Half), s.halves[i]? = some a →
    (∀ q, a.got = some (some q) → a.fate = .matchedWith q) ∧ (a.got = some none → a.fate = .expired)
  /-- A splice is run by the handler of a second half, with the first half of
  its pair. -/
  runner : ∀ (i p : ℕ) (a : Half), s.halves[i]? = some a → a.handler = .splicing p →
    a.fate = .matchedWith p ∧ p < i
  /-- It is run once: the two streams of a pair have not been spliced, and the
  handler of the first half has not returned, or they have been spliced once,
  with each other. -/
  once : ∀ (i p : ℕ) (a b : Half), s.halves[i]? = some a → s.halves[p]? = some b →
    a.fate = .matchedWith p → p < i →
      (a.splices = [] ∧ b.splices = [] ∧ b.handler ≠ .returned ∧ b.streamClosed = false)
        ∨ (a.splices = [p] ∧ b.splices = [i])
  /-- A stream without a partner is not spliced. -/
  alone : ∀ (i : ℕ) (a : Half), s.halves[i]? = some a → (∀ p, a.fate ≠ .matchedWith p) →
    a.splices = []
  /-- It is run: nothing keeps the handler of the second half from it. -/
  reached : ∀ (i p : ℕ) (a : Half), s.halves[i]? = some a → a.fate = .matchedWith p → p < i →
    ∃ n s' c, resumeMachine.run (List.replicate n (.handler i)) s = some s'
      ∧ s'.halves[i]? = some c ∧ c.splices = [p]

/-- The second half of a pair is the one that was submitted later. -/
theorem SpliceInv.second_of_lt (I : s.SpliceInv) (hi : heap s.halves i = some a)
    (hf : a.fate = .matchedWith p) (hlt : p < i) :
    ∃ b, heap s.halves p = some b ∧ a.Paired i p b := by
  obtain ⟨b, hb, -, hab | hab⟩ := I.halves.partner hi hf
  · exact ⟨b, hb, hab⟩
  · exact absurd hab.fates.2.2.2 (Nat.lt_asymm hlt)

theorem SpliceInv.got_fate (I : s.SpliceInv) (hi : heap s.halves i = some a) :
    (∀ q, a.got = some (some q) → a.fate = .matchedWith q)
      ∧ (a.got = some none → a.fate = .expired) := by
  have hok := I.halves.party i a hi
  have hpeer : ∀ {q : ℕ} {o : Option ℕ}, a.fate = .matchedWith q → a.got = some o →
      o = some q := by
    intro q o hf hgot
    obtain ⟨-, b, hb, hab | hab⟩ := hok.matched hf
    · have hsec := hab.second
      unfold Half.SecondOK at hsec
      cases hh : a.handler <;> rw [hh, hgot] at hsec <;> simp_all
    · have hfirst := hab.first
      unfold Half.FirstOK at hfirst
      cases hh : a.handler <;> rw [hh, hgot] at hfirst <;> simp_all
  cases hf : a.fate with
  | parked =>
    rw [(hok.parked hf).2.handler.2.1]
    exact ⟨fun _ h => (by cases h), fun h => (by cases h)⟩
  | expired =>
    refine ⟨fun q hgot => ?_, fun _ => rfl⟩
    rcases (hok.expired hf).2.handler with ⟨-, h⟩ | ⟨-, h⟩ <;> cases hgot.symm.trans h
  | matchedWith p =>
    refine ⟨fun q hgot => ?_, fun hgot => ?_⟩
    · rw [Option.some.inj (hpeer hf hgot)]
    · cases hpeer hf hgot

theorem spliceOnce_of_spliceInv (I : s.SpliceInv) : s.SpliceOnce where
  calm := I.calm
  partner i p a hi hf := by
    obtain ⟨b, hb, hfb, hab⟩ := I.halves.partner hi hf
    rcases hab with hab | hab
    · exact ⟨b, hb, hfb, hab.fates.2.2.1.symm, hab.ne⟩
    · exact ⟨b, hb, hfb, hab.fates.2.2.1, hab.ne.symm⟩
  told i a hi := I.got_fate hi
  runner i p a hi hh := by
    obtain ⟨b, hb, hab⟩ := I.second_of_peer hi (by rw [hh]; rfl)
    exact ⟨hab.fates.1, hab.fates.2.2.2⟩
  once i p a b hi hp hf hlt := by
    obtain ⟨b', hb', hab⟩ := I.second_of_lt hi hf hlt
    cases hp.symm.trans hb'
    have hspl := hab.splices
    have hst := hab.streams
    cases hend : a.handler.spliced with
    | true =>
      rw [hend] at hspl
      exact Or.inr hspl
    | false =>
      rw [hend] at hspl hst
      refine Or.inl ⟨hspl.1, hspl.2, fun hret => ?_, hst.2⟩
      have hfirst := hab.first
      unfold Half.FirstOK at hfirst
      rw [hret] at hfirst
      rw [hfirst.1] at hend
      cases hend
  alone i a hi hf := by
    have hok := I.halves.party i a hi
    cases hfate : a.fate with
    | parked => exact (hok.parked hfate).2.stream.1
    | expired => exact (hok.expired hfate).2.stream
    | matchedWith p => exact absurd hfate (hf p)
  reached i p a hi hf hlt := by
    obtain ⟨b, hb, hab⟩ := I.second_of_lt hi hf hlt
    exact splice_runs I hi hb hab

end ResumeState

/-- **Exactly one splice per resumed pair.** In every state of every run, the
two streams of a matched pair are spliced by one splice, which the handler of
the second half runs, and before whose end the handler of the first does not
return; no channel operation panics; and along a run a half that has been
matched stays with its partner, and one that has expired stays expired. -/
theorem one_splice_per_pair {h : List (Transition ResumeState ResumeEvent)} {s : ResumeState}
    (hx : resumeMachine.Exec h s) :
    s.SpliceOnce ∧ ∀ t ∈ h, ∀ (i : ℕ) (a : Half), t.pre.halves[i]? = some a → a.fate ≠ .parked →
      ∃ c, t.post.halves[i]? = some c ∧ c.fate = a.fate := by
  refine ⟨ResumeState.spliceOnce_of_spliceInv (ResumeState.spliceInv_of_reachable ⟨h, hx⟩), ?_⟩
  intro t ht i a hi hf
  obtain ⟨hreach, hstep⟩ := hx.step_of_mem ht
  obtain ⟨c, hc, -, hfc⟩ :=
    (ResumeState.evolves_step (ResumeState.spliceInv_of_reachable hreach) hstep).settled hi hf
  exact ⟨c, hc, hfc⟩

/-- Two halves, the second of which has run its splice, with the first still
waiting for its end. -/
theorem two_halves_spliced_once :
    ∃ h s, resumeMachine.Exec h s ∧ s.SpliceOnce
      ∧ s.halves.map Half.splices = [[1], [0]]
      ∧ s.halves.map Half.handler = [.waitDone, .release 0] := by
  obtain ⟨s, hrun, hspl, hpc⟩ : ∃ s, resumeMachine.run
      (twoHalves ++ [.handler 1, .handler 0, .handler 0, .handler 1, .handler 1, .handler 1,
        .handler 1, .handler 1]) resumeMachine.init = some s
      ∧ s.halves.map Half.splices = [[1], [0]]
      ∧ s.halves.map Half.handler = [.waitDone, .release 0] := ⟨_, rfl, rfl, rfl⟩
  obtain ⟨h, hx, -⟩ := Machine.exec_of_run _ _ hrun
  exact ⟨h, s, hx, (one_splice_per_pair hx).1, hspl, hpc⟩
