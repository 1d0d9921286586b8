import Mathlib.Logic.Function.Basic
import Mathlib.Order.Nat
import OutRelay.Framing
import OutRelay.Run

/-!
# Writing to an agent's control stream

After HELLO_ACK an agent's stream 0 has several writers: its control loop, which
answers what it reads, and any other goroutine of the relay that has something
to tell the agent or to forward to it. `ctrlMu` is there to keep their frames
apart. `WriteCtrl`, `forwardCandidate` and `forwardCheckpoint` take it; the
control loop writes PONG, REGISTER_ACK and OBSERVED_ADDR_RESP without it.

A write goes out in chunks, and the chunks of writes that overlap can alternate.
Writes under the mutex do not overlap, and neither do the replies of the control
loop, which is one goroutine. What remains is a reply of the loop and a write
under the mutex: the frames stay whole exactly when no such pair is half way at
the same time (`whole_iff_clear`).
-/

open Framing

/-- A goroutine: the agent's own control loop, or another one. -/
inductive Routine
  | loop
  | other (n : ℕ)
  deriving DecidableEq

/-- The places that write to the control stream after HELLO_ACK. -/
inductive CtrlSite
  | pong
  | registerAck
  | observedAddrResp
  | writeCtrl
  | forwardCandidate
  | forwardCheckpoint

/-- Does the place hold `ctrlMu`? The other three are in the control loop, which
writes to the stream it reads. -/
def CtrlSite.locks : CtrlSite → Bool
  | .pong | .registerAck | .observedAddrResp => false
  | .writeCtrl | .forwardCandidate | .forwardCheckpoint => true

/-- Where a goroutine is: in write number `w`, `done` is on the stream and `rest` is
not. -/
inductive WriterPC
  | idle
  | writing (site : CtrlSite) (w : ℕ) (done rest : List UInt8)

/-- Half way through a frame. -/
def WriterPC.Half : WriterPC → Prop
  | .idle => False
  | .writing _ _ done rest => done ≠ [] ∧ rest ≠ []

/-- In a write without the mutex. -/
def WriterPC.Bare : WriterPC → Prop
  | .idle => False
  | .writing site _ _ _ => site.locks = false

/-- The stream of one agent and its writers. `writes` are the frames in the order in
which their writes began, and every byte on the stream carries the number of its
write. A write that fails leaves the stream `broken`: nothing more goes out. -/
structure CtrlState where
  mu : Option Routine
  pc : Routine → WriterPC
  writes : List (List UInt8)
  stream : List (ℕ × UInt8)
  broken : Bool

/-- A goroutine begins to write a frame, sends the next bytes of it, returns from the
write, or gets an error from it. -/
inductive CtrlEvent
  | start (r : Routine) (site : CtrlSite) (frame : List UInt8)
  | chunk (r : Routine) (n : ℕ)
  | finish (r : Routine)
  | fail (r : Routine)

namespace CtrlState

variable {s s' : CtrlState} {e : CtrlEvent} {r : Routine} {site : CtrlSite} {w n : ℕ}
  {done rest frame : List UInt8}

/-- The write of a frame begins. -/
def begun (s : CtrlState) (r : Routine) (site : CtrlSite) (frame : List UInt8) : CtrlState :=
  { s with
    pc := Function.update s.pc r (.writing site s.writes.length [] frame)
    writes := s.writes ++ [frame] }

/-- A chunk of a write goes out. -/
def send (s : CtrlState) (r : Routine) (site : CtrlSite) (w : ℕ) (done rest : List UInt8)
    (n : ℕ) : CtrlState :=
  { s with
    pc := Function.update s.pc r (.writing site w (done ++ rest.take n) (rest.drop n))
    stream := s.stream ++ mark w (rest.take n) }

/-- A write is over, and with it the critical section it was in. -/
def leave (s : CtrlState) (r : Routine) (site : CtrlSite) : CtrlState :=
  { s with
    pc := Function.update s.pc r .idle
    mu := if site.locks = true then none else s.mu }

/-- **One step.** -/
def step (s : CtrlState) : CtrlEvent → Option CtrlState
  | .start r site frame =>
    match s.pc r with
    | .idle =>
      if site.locks = true then
        if s.mu = none then some { s.begun r site frame with mu := some r } else none
      else if r = .loop then some (s.begun r site frame) else none
    | .writing _ _ _ _ => none
  | .chunk r n =>
    match s.pc r with
    | .idle => none
    | .writing site w done rest =>
      if 0 < n ∧ n ≤ rest.length ∧ s.broken = false then some (s.send r site w done rest n)
      else none
  | .finish r =>
    match s.pc r with
    | .writing site _ _ [] => some (s.leave r site)
    | _ => none
  | .fail r =>
    match s.pc r with
    | .idle => none
    | .writing site _ _ _ => some { s.leave r site with broken := true }

end CtrlState

/-- **The control stream of an agent**, from HELLO_ACK on. -/
def ctrlMachine : Machine CtrlState CtrlEvent :=
  ⟨⟨none, fun _ => .idle, [], [], false⟩, CtrlState.step⟩

namespace CtrlState

variable {s s' : CtrlState} {e : CtrlEvent} {r : Routine} {site : CtrlSite} {w n : ℕ}
  {done rest frame : List UInt8}

/-- The bytes on the stream. -/
def bytes (s : CtrlState) : List UInt8 := s.stream.map Prod.snd

/-- **The frames are whole on the stream**: it is one frame after another, and then
perhaps the beginning of a frame that is being written, or on which the stream has
broken. -/
def Whole (s : CtrlState) : Prop :=
  ∃ fs, (∀ f ∈ fs, s.writes[f.fst]? = some f.snd) ∧
    (s.stream = whole fs ∨ ∃ w part rest, s.writes[w]? = some (part ++ rest)
      ∧ s.stream = whole fs ++ mark w part
      ∧ (s.broken = true ∨ ∃ r site, s.pc r = .writing site w part rest))

/-- **The condition.** While the control loop is in a write without the mutex, it
sends no bytes when another goroutine is half way through a frame, and no other
goroutine sends bytes when the loop is half way. -/
def Clear (s : CtrlState) : CtrlEvent → Prop
  | .chunk .loop _ => (s.pc .loop).Bare → ∀ n, ¬ (s.pc (.other n)).Half
  | .chunk (.other _) _ => (s.pc .loop).Bare → ¬ (s.pc .loop).Half
  | _ => True

/-! ## What holds of every run -/

/-- A goroutine in a write: it holds the mutex, or is the control loop; and its bytes
on the stream are the ones it has sent. -/
structure Writer (s : CtrlState) (r : Routine) (site : CtrlSite) (w : ℕ)
    (done rest : List UInt8) : Prop where
  lock : site.locks = true → s.mu = some r
  bare : site.locks = false → r = .loop
  frame : s.writes[w]? = some (done ++ rest)
  own : only w s.stream = mark w done

structure Base (s : CtrlState) : Prop where
  writer : ∀ r site w done rest, s.pc r = .writing site w done rest →
    s.Writer r site w done rest
  apart : ∀ {r r' w site site' done done' rest rest'}, s.pc r = .writing site w done rest →
    s.pc r' = .writing site' w done' rest' → r = r'
  marks : ∀ b ∈ s.stream, b.fst < s.writes.length

theorem Base.lt (h : s.Base) (hpc : s.pc r = .writing site w done rest) : w < s.writes.length :=
  (List.getElem?_eq_some_iff.mp (h.writer r site w done rest hpc).frame).1

/-- Where the others are when one goroutine moves. -/
theorem of_update_writing {pc : Routine → WriterPC} {r' : Routine} {x : WriterPC}
    (hpc : Function.update pc r x r' = .writing site w done rest) :
    (r' = r ∧ x = .writing site w done rest)
      ∨ (r' ≠ r ∧ pc r' = .writing site w done rest) := by
  rw [Function.update_apply] at hpc
  split_ifs at hpc with hr
  · exact Or.inl ⟨hr, hpc⟩
  · exact Or.inr ⟨hr, hpc⟩

/-- A write begins, with the mutex taken if it is one under the mutex. -/
theorem Base.start {mu : Option Routine} (h : s.Base)
    (hlock : site.locks = true → s.mu = none ∧ mu = some r)
    (hbare : site.locks = false → r = .loop ∧ mu = s.mu) :
    ({ s.begun r site frame with mu := mu } : CtrlState).Base := by
  refine ⟨fun r' site' w' done' rest' hpc => ?_, fun hpc hpc' => ?_, fun b hb => ?_⟩
  · rcases of_update_writing hpc with ⟨rfl, hx⟩ | ⟨-, hold⟩
    · cases hx
      refine ⟨fun hl => (hlock hl).2, fun hl => (hbare hl).1, List.getElem?_concat_length, ?_⟩
      exact only_eq_nil fun b hb => (h.marks b hb).ne
    · have hw := h.writer r' site' w' done' rest' hold
      refine ⟨fun hl => ?_, hw.bare, ?_, hw.own⟩
      · cases hsite : site.locks with
        | true => cases (hlock hsite).1.symm.trans (hw.lock hl)
        | false => exact (hbare hsite).2.trans (hw.lock hl)
      · exact (List.getElem?_append_left (h.lt hold)).trans hw.frame
  · rcases of_update_writing hpc with ⟨hr, hx⟩ | ⟨-, hold⟩
    · cases hx
      rcases of_update_writing hpc' with ⟨hr', -⟩ | ⟨-, hold'⟩
      · exact hr.trans hr'.symm
      · exact absurd (h.lt hold') (lt_irrefl _)
    · rcases of_update_writing hpc' with ⟨-, hx⟩ | ⟨-, hold'⟩
      · cases hx
        exact absurd (h.lt hold) (lt_irrefl _)
      · exact h.apart hold hold'
  · refine (h.marks b hb).trans_le ?_
    show s.writes.length ≤ (s.writes ++ [frame]).length
    rw [List.length_append]
    exact Nat.le_add_right _ _

theorem Base.send (h : s.Base) (hpc : s.pc r = .writing site w done rest) (n : ℕ) :
    (s.send r site w done rest n).Base := by
  have hw := h.writer r site w done rest hpc
  refine ⟨fun r' site' w' done' rest' hpc' => ?_, fun hpc₁ hpc₂ => ?_, fun b hb => ?_⟩
  · rcases of_update_writing hpc' with ⟨rfl, hx⟩ | ⟨hne, hold⟩
    · cases hx
      refine ⟨hw.lock, hw.bare, ?_, ?_⟩
      · rw [List.append_assoc, List.take_append_drop]
        exact hw.frame
      · show only w (s.stream ++ mark w _) = _
        rw [only_append, hw.own, only_mark_self, mark_append]
    · have hw' := h.writer r' site' w' done' rest' hold
      refine ⟨hw'.lock, hw'.bare, hw'.frame, ?_⟩
      have hww : w ≠ w' := by
        rintro rfl
        exact hne (h.apart hold hpc)
      show only w' (s.stream ++ mark w _) = _
      rw [only_append, only_mark_of_ne hww, List.append_nil, hw'.own]
  · rcases of_update_writing hpc₁ with ⟨hr₁, hx⟩ | ⟨-, hold₁⟩
    · cases hx
      rcases of_update_writing hpc₂ with ⟨hr₂, -⟩ | ⟨-, hold₂⟩
      · exact hr₁.trans hr₂.symm
      · exact hr₁.trans (h.apart hpc hold₂)
    · rcases of_update_writing hpc₂ with ⟨hr₂, hx⟩ | ⟨-, hold₂⟩
      · cases hx
        exact (h.apart hold₁ hpc).trans hr₂.symm
      · exact h.apart hold₁ hold₂
  · rcases List.mem_append.mp hb with hb | hb
    · exact h.marks b hb
    · exact (mem_mark hb).trans_lt (h.lt hpc)

theorem Base.leave {broken : Bool} (h : s.Base) (hpc : s.pc r = .writing site w done rest) :
    ({ s.leave r site with broken := broken } : CtrlState).Base := by
  have hcases : ∀ {r' site' w' done' rest'},
      Function.update s.pc r .idle r' = .writing site' w' done' rest' →
      r' ≠ r ∧ s.pc r' = .writing site' w' done' rest' := fun hpc' =>
    (of_update_writing hpc').resolve_left (fun hx => nomatch hx.2)
  refine ⟨fun r' site' w' done' rest' hpc' => ?_, fun hpc₁ hpc₂ => ?_, h.marks⟩
  · obtain ⟨hne, hold⟩ := hcases hpc'
    have hw' := h.writer r' site' w' done' rest' hold
    refine ⟨fun hl => ?_, hw'.bare, hw'.frame, hw'.own⟩
    show (if site.locks = true then none else s.mu) = some r'
    rw [if_neg, hw'.lock hl]
    intro hsite
    have hmu := ((h.writer r site w done rest hpc).lock hsite).symm.trans (hw'.lock hl)
    exact hne (Option.some.inj hmu).symm
  · exact h.apart (hcases hpc₁).2 (hcases hpc₂).2

theorem Base.step (h : s.Base) (hstep : s.step e = some s') : s'.Base := by
  cases e with
  | start r site frame =>
    simp only [CtrlState.step] at hstep
    split at hstep
    · split_ifs at hstep with hlock hmu hloop
      · cases hstep
        exact h.start (fun _ => ⟨hmu, rfl⟩) (fun hl => absurd hlock (by simp [hl]))
      · cases hstep
        exact h.start (fun hl => absurd hl hlock) (fun _ => ⟨hloop, rfl⟩)
    · cases hstep
  | chunk r n =>
    simp only [CtrlState.step] at hstep
    split at hstep
    · cases hstep
    · next hpc =>
      split_ifs at hstep
      cases hstep
      exact h.send hpc n
  | finish r =>
    simp only [CtrlState.step] at hstep
    split at hstep
    · next hpc =>
      cases hstep
      exact h.leave hpc
    · cases hstep
  | fail r =>
    simp only [CtrlState.step] at hstep
    split at hstep
    · cases hstep
    · next hpc =>
      cases hstep
      exact h.leave hpc

/-- A goroutine half way is in a write. -/
theorem exists_of_half (h : (s.pc r).Half) :
    ∃ site w done rest, s.pc r = .writing site w done rest ∧ done ≠ [] ∧ rest ≠ [] := by
  cases hpc : s.pc r with
  | idle =>
    rw [hpc] at h
    exact absurd h id
  | writing site w done rest =>
    rw [hpc] at h
    exact ⟨site, w, done, rest, rfl, h⟩

/-- **The mutex leaves only the control loop.** A chunk is clear exactly when no other
goroutine is half way. -/
theorem Base.clear_iff (h : s.Base) (hpc : s.pc r = .writing site w done rest) (n : ℕ) :
    s.Clear (.chunk r n) ↔ ∀ r', r' ≠ r → ¬ (s.pc r').Half := by
  have hw := h.writer r site w done rest hpc
  constructor
  · intro hclear r' hne hhalf
    obtain ⟨site', w', done', rest', hpc', -, -⟩ := exists_of_half hhalf
    have hw' := h.writer r' site' w' done' rest' hpc'
    cases hsite : site.locks with
    | false =>
      cases hw.bare hsite
      have hbare : (s.pc .loop).Bare := by
        rw [hpc]
        exact hsite
      cases r' with
      | loop => exact hne rfl
      | other m => exact hclear hbare m hhalf
    | true =>
      cases hsite' : site'.locks with
      | true =>
        exact hne (Option.some.inj ((hw'.lock hsite').symm.trans (hw.lock hsite)))
      | false =>
        cases hw'.bare hsite'
        have hbare : (s.pc .loop).Bare := by
          rw [hpc']
          exact hsite'
        cases r with
        | loop => exact hne rfl
        | other m => exact hclear hbare hhalf
  · intro hothers
    cases r with
    | loop => exact fun _ m => hothers (.other m) Routine.noConfusion
    | other m => exact fun _ => hothers .loop Routine.noConfusion

/-! ## What holds while the steps are clear -/

/-- **The layout of the stream**: whole frames, followed by what the one goroutine that
is half way has sent of its own. -/
def Laid (s : CtrlState) : Prop :=
  ∃ fs, (∀ f ∈ fs, s.writes[f.fst]? = some f.snd) ∧
    ((s.stream = whole fs ∧ ∀ r, ¬ (s.pc r).Half) ∨ ∃ r site w done rest,
      s.pc r = .writing site w done rest ∧ done ≠ [] ∧ rest ≠ []
        ∧ s.stream = whole fs ++ mark w done ∧ ∀ r', r' ≠ r → ¬ (s.pc r').Half)

theorem Whole.of_laid (h : s.Laid) (hb : s.Base) : s.Whole := by
  obtain ⟨fs, hfs, ⟨hs, -⟩ | ⟨r, site, w, done, rest, hpc, -, -, hs, -⟩⟩ := h
  · exact ⟨fs, hfs, Or.inl hs⟩
  · exact ⟨fs, hfs, Or.inr ⟨w, done, rest, (hb.writer r site w done rest hpc).frame, hs,
      Or.inr ⟨r, site, hpc⟩⟩⟩

theorem getElem?_of_prefix {l l' : List (List UInt8)} {k : ℕ} (hl : l <+: l')
    (hk : l[k]? = some frame) : l'[k]? = some frame := by
  obtain ⟨l₁, rfl⟩ := hl
  exact (List.getElem?_append_left (List.getElem?_eq_some_iff.mp hk).1).trans hk

/-- A write that begins or ends leaves the layout as it is: the goroutine is half way
neither before nor after. -/
theorem Laid.of_pc {s' : CtrlState} {x : WriterPC} (h : s.Laid) (hstream : s'.stream = s.stream)
    (hwrites : s.writes <+: s'.writes) (hpc : s'.pc = Function.update s.pc r x)
    (hold : ¬ (s.pc r).Half) (hnew : ¬ x.Half) : s'.Laid := by
  have hhalf : ∀ {r'}, ¬ (s.pc r').Half → ¬ (s'.pc r').Half := by
    intro r' hr'
    rw [hpc, Function.update_apply]
    split_ifs
    · exact hnew
    · exact hr'
  obtain ⟨fs, hfs, hl⟩ := h
  refine ⟨fs, fun f hf => getElem?_of_prefix hwrites (hfs f hf), ?_⟩
  rcases hl with ⟨hs, hno⟩ | ⟨r', site, w, done, rest, hpc', hdone, hrest, hs, hothers⟩
  · exact Or.inl ⟨hstream.trans hs, fun r' => hhalf (hno r')⟩
  · have hne : r' ≠ r := by
      rintro rfl
      rw [hpc'] at hold
      exact hold ⟨hdone, hrest⟩
    refine Or.inr ⟨r', site, w, done, rest, ?_, hdone, hrest, hstream.trans hs,
      fun r'' hr'' => hhalf (hothers r'' hr'')⟩
    rw [hpc, Function.update_of_ne hne, hpc']

/-- The next bytes of the only frame there is half way, or of one that begins when there
is none. -/
theorem Laid.send (h : s.Laid) (hb : s.Base) (hpc : s.pc r = .writing site w done rest)
    (hn : 0 < n) (hle : n ≤ rest.length) (hothers : ∀ r', r' ≠ r → ¬ (s.pc r').Half) :
    (s.send r site w done rest n).Laid := by
  have hrest : rest ≠ [] := List.ne_nil_of_length_pos (hn.trans_le hle)
  have hothers' : ∀ r', r' ≠ r → ¬ ((s.send r site w done rest n).pc r').Half := by
    intro r' hne
    show ¬ (Function.update s.pc r _ r').Half
    rw [Function.update_of_ne hne]
    exact hothers r' hne
  obtain ⟨fs, hfs, hl⟩ := h
  have hstream : s.stream = whole fs ++ mark w done := by
    rcases hl with ⟨hs, hno⟩ | ⟨r', site', w', done', rest', hpc', hdone', hrest', hs, -⟩
    · have hdone : done = [] := by
        by_contra hdone
        refine hno r ?_
        rw [hpc]
        exact ⟨hdone, hrest⟩
      rw [hs, hdone, mark_nil, List.append_nil]
    · have hr : r' = r := by
        by_contra hne
        refine hothers r' hne ?_
        rw [hpc']
        exact ⟨hdone', hrest'⟩
      subst hr
      cases hpc.symm.trans hpc'
      exact hs
  have hstream' : (s.send r site w done rest n).stream
      = whole fs ++ mark w (done ++ rest.take n) := by
    show s.stream ++ mark w (rest.take n) = _
    rw [hstream, mark_append, List.append_assoc]
  have hself : (s.send r site w done rest n).pc r
      = .writing site w (done ++ rest.take n) (rest.drop n) := Function.update_self ..
  by_cases hend : rest.drop n = []
  · -- the frame is complete: it joins the whole ones
    have hall : done ++ rest.take n = done ++ rest := by
      conv_rhs => rw [← List.take_append_drop n rest, hend, List.append_nil]
    refine ⟨fs ++ [(w, done ++ rest)], ?_, Or.inl ⟨?_, fun r' hhalf => ?_⟩⟩
    · rw [List.forall_mem_append, List.forall_mem_singleton]
      exact ⟨hfs, (hb.writer r site w done rest hpc).frame⟩
    · rw [whole_concat, hstream', hall]
    · by_cases hr : r' = r
      · rw [hr, hself] at hhalf
        exact hhalf.2 hend
      · exact hothers' r' hr hhalf
  · refine ⟨fs, hfs, Or.inr ⟨r, site, w, _, _, hself, ?_, hend, hstream', hothers'⟩⟩
    intro hnil
    have htake := (List.append_eq_nil_iff.mp hnil).2
    rw [List.take_eq_nil_iff] at htake
    rcases htake with h0 | h0
    · exact hn.ne' h0
    · exact hrest h0

/-- On a broken stream nothing is laid any more, and what is there stays. -/
theorem Whole.of_broken (h : s.Whole) (hstream : s'.stream = s.stream)
    (hwrites : s.writes <+: s'.writes) (hb : s'.broken = true) : s'.Whole := by
  obtain ⟨fs, hfs, hs | ⟨w, part, rest, hw, hs, -⟩⟩ := h
  · exact ⟨fs, fun f hf => getElem?_of_prefix hwrites (hfs f hf), Or.inl (hstream.trans hs)⟩
  · exact ⟨fs, fun f hf => getElem?_of_prefix hwrites (hfs f hf),
      Or.inr ⟨w, part, rest, getElem?_of_prefix hwrites hw, hstream.trans hs, Or.inl hb⟩⟩

/-- What holds of every state of a run whose steps are clear. -/
structure Inv (s : CtrlState) : Prop where
  base : s.Base
  whole : s.Whole
  laid : s.broken = false → s.Laid

/-- A step that sends nothing. -/
theorem Inv.of_pc {x : WriterPC} (h : s.Inv) (hb : s'.Base) (hstream : s'.stream = s.stream)
    (hwrites : s.writes <+: s'.writes) (hpc : s'.pc = Function.update s.pc r x)
    (hold : ¬ (s.pc r).Half) (hnew : ¬ x.Half) (hbroken : s'.broken = s.broken) : s'.Inv := by
  have hlaid : s'.broken = false → s'.Laid := fun hf =>
    (h.laid (hbroken.symm.trans hf)).of_pc hstream hwrites hpc hold hnew
  refine ⟨hb, ?_, hlaid⟩
  cases hf : s'.broken with
  | true => exact h.whole.of_broken hstream hwrites hf
  | false => exact .of_laid (hlaid hf) hb

theorem Inv.step (h : s.Inv) (hclear : s.Clear e) (hstep : s.step e = some s') : s'.Inv := by
  have hbase := h.base.step hstep
  cases e with
  | start r site frame =>
    simp only [CtrlState.step] at hstep
    split at hstep
    · next hidle =>
      have hold : ¬ (s.pc r).Half := by
        rw [hidle]
        exact id
      have hnew : ¬ (WriterPC.writing site s.writes.length [] frame).Half := fun hhalf =>
        hhalf.1 rfl
      split_ifs at hstep with hlock hmu hloop
      · cases hstep
        exact h.of_pc hbase rfl (List.prefix_append _ _) rfl hold hnew rfl
      · cases hstep
        exact h.of_pc hbase rfl (List.prefix_append _ _) rfl hold hnew rfl
    · cases hstep
  | chunk r n =>
    simp only [CtrlState.step] at hstep
    split at hstep
    · cases hstep
    · next hpc =>
      split_ifs at hstep with hguard
      cases hstep
      have hlaid := (h.laid hguard.2.2).send h.base hpc hguard.1 hguard.2.1
        ((h.base.clear_iff hpc n).mp hclear)
      exact ⟨hbase, .of_laid hlaid hbase, fun _ => hlaid⟩
  | finish r =>
    simp only [CtrlState.step] at hstep
    split at hstep
    · next hpc =>
      cases hstep
      refine h.of_pc hbase rfl List.prefix_rfl rfl ?_ id rfl
      rw [hpc]
      exact fun hhalf => hhalf.2 rfl
    · cases hstep
  | fail r =>
    simp only [CtrlState.step] at hstep
    split at hstep
    · cases hstep
    · cases hstep
      exact ⟨hbase, h.whole.of_broken rfl List.prefix_rfl rfl, fun hf => nomatch hf⟩

/-- **A step that is not clear cuts a frame in two.** -/
theorem Base.not_whole (h : s.Base) (hclear : ¬ s.Clear e) (hstep : s.step e = some s') :
    ¬ s'.Whole := by
  have hbase := h.step hstep
  cases e with
  | chunk r n =>
    simp only [CtrlState.step] at hstep
    split at hstep
    · cases hstep
    · next site w done rest hpc =>
      split_ifs at hstep with hguard
      cases hstep
      rw [h.clear_iff hpc, not_forall] at hclear
      obtain ⟨r', hother⟩ := hclear
      obtain ⟨hne, hhalf⟩ := Classical.not_imp.mp hother
      rw [not_not] at hhalf
      obtain ⟨site', w', done', rest', hpc', hdone', hrest'⟩ := exists_of_half hhalf
      have hpc₁ : (s.send r site w done rest n).pc r' = .writing site' w' done' rest' := by
        show Function.update s.pc r _ r' = _
        rw [Function.update_of_ne hne, hpc']
      have hw' := hbase.writer r' site' w' done' rest' hpc₁
      have hww : w ≠ w' := by
        rintro rfl
        exact hne (h.apart hpc' hpc)
      have htake : rest.take n ≠ [] := by
        rw [ne_eq, List.take_eq_nil_iff, not_or]
        exact ⟨hguard.1.ne', List.ne_nil_of_length_pos (hguard.1.trans_le hguard.2.1)⟩
      have hlast : ∀ b, (s.send r site w done rest n).stream.getLast? = some b → b.fst ≠ w' := by
        intro b hb
        have hb : (s.stream ++ mark w (rest.take n)).getLast? = some b := hb
        rw [List.getLast?_append_of_ne_nil _ (mark_ne_nil htake)] at hb
        rw [mem_mark (List.mem_of_getLast? hb)]
        exact hww
      have hlt : done'.length < (done' ++ rest').length := by
        rw [List.length_append]
        exact Nat.lt_add_of_pos_right (List.length_pos_of_ne_nil hrest')
      rintro ⟨fs, hfs, hs⟩
      have hf : ∀ f, (w', f) ∈ fs → f = done' ++ rest' := fun f hf =>
        Option.some.inj ((hfs _ hf).symm.trans hw'.frame)
      have hcut : ∀ (j : ℕ) (part : List UInt8),
          (s.send r site w done rest n).stream ≠ whole fs ++ mark j part := fun j part =>
        not_whole_of_only hw'.own hdone' hlt hlast hf
      rcases hs with hs | ⟨j, part, -, -, hs, -⟩
      · exact hcut 0 [] (hs.trans (List.append_nil _).symm)
      · exact hcut j part hs
  | _ => exact absurd trivial hclear

end CtrlState

/-- **The frames on the control stream stay whole exactly when the steps are clear.** -/
theorem whole_iff_clear {h : List (Transition CtrlState CtrlEvent)} {s : CtrlState}
    (hx : ctrlMachine.Exec h s) :
    Machine.Throughout CtrlState.Whole h s ↔ ∀ t ∈ h, t.pre.Clear t.ev := by
  refine hx.throughout_iff (I := CtrlState.Inv) ?_ (fun hI => hI.whole) ?_ ?_
  · have hbase : ctrlMachine.init.Base :=
      ⟨fun _ _ _ _ _ hpc => (nomatch hpc), fun hpc => (nomatch hpc),
        fun b hb => absurd hb List.not_mem_nil⟩
    have hlaid : ctrlMachine.init.Laid :=
      ⟨[], fun f hf => absurd hf List.not_mem_nil, Or.inl ⟨rfl, fun r hr => hr⟩⟩
    exact ⟨hbase, .of_laid hlaid hbase, fun _ => hlaid⟩
  · exact fun _ hI hclear hstep => hI.step hclear hstep
  · exact fun _ hI hclear hstep => hI.base.not_whole hclear hstep

/-- **A PONG cut in two.** The control loop answers a PING, and has sent the first byte
of the PONG when `WriteCtrl` sends a frame of its own: both writes return without an
error, and the bytes on the stream are not those of the frames end to end, in
whatever order. -/
theorem pong_cut_in_two :
    ∃ h s, ctrlMachine.Exec h s
      ∧ h.map Transition.ev = [.start .loop .pong [5, 6], .start (.other 0) .writeCtrl [7, 8],
        .chunk .loop 1, .chunk (.other 0) 2, .chunk .loop 1, .finish (.other 0), .finish .loop]
      ∧ ¬ s.Whole
      ∧ ∀ fs : List (List UInt8), (∀ f ∈ fs, f ∈ s.writes) → s.bytes ≠ fs.flatten := by
  obtain ⟨s, hrun, hwrites, hbytes, hbroken, hidle⟩ : ∃ s, ctrlMachine.run
      [.start .loop .pong [5, 6], .start (.other 0) .writeCtrl [7, 8], .chunk .loop 1,
        .chunk (.other 0) 2, .chunk .loop 1, .finish (.other 0), .finish .loop]
      ctrlMachine.init = some s
      ∧ s.writes = [[5, 6], [7, 8]] ∧ s.bytes = [5, 7, 8, 6] ∧ s.broken = false
      ∧ ∀ r, s.pc r = .idle := by
    refine ⟨_, rfl, rfl, rfl, rfl, fun r => ?_⟩
    rcases r with _ | _ | n <;> rfl
  obtain ⟨h, hx, hev⟩ := Machine.exec_of_run _ _ hrun
  have hcut : ∀ fs : List (List UInt8), (∀ f ∈ fs, f ∈ s.writes) → s.bytes ≠ fs.flatten := by
    intro fs hfs
    rw [hbytes]
    cases fs with
    | nil => decide
    | cons f fs =>
      have hf := hfs f List.mem_cons_self
      rw [hwrites, List.mem_pair] at hf
      rcases hf with rfl | rfl
      · simp
      · simp
  refine ⟨h, s, hx, hev, ?_, hcut⟩
  rintro ⟨fs, hfs, hs | ⟨w, part, rest, -, -, hbad | ⟨r, site, hpc⟩⟩⟩
  · refine hcut (fs.map Prod.snd) (fun f hf => ?_) ?_
    · obtain ⟨⟨k, f⟩, hmem, rfl⟩ := List.mem_map.mp hf
      exact List.mem_of_getElem? (hfs _ hmem)
    · rw [CtrlState.bytes, hs, map_snd_whole]
  · cases hbroken.symm.trans hbad
  · cases (hidle r).symm.trans hpc

/-- A PONG that is out before `WriteCtrl` sends its first byte. -/
theorem pong_ahead_of_frame :
    ∃ h s, ctrlMachine.Exec h s ∧ s.bytes = [5, 6, 7]
      ∧ h.map Transition.ev = [.start .loop .pong [5, 6], .start (.other 0) .writeCtrl [7, 8],
        .chunk .loop 2, .chunk (.other 0) 1]
      ∧ Machine.Throughout CtrlState.Whole h s := by
  have hx := ((Machine.Exec.nil (M := ctrlMachine)).snoc
    (e := .start .loop .pong [5, 6]) rfl).snoc (e := .start (.other 0) .writeCtrl [7, 8]) rfl
  have hx' := (hx.snoc (e := .chunk .loop 2) rfl).snoc (e := .chunk (.other 0) 1) rfl
  refine ⟨_, _, hx', rfl, rfl, (whole_iff_clear hx').mpr ?_⟩
  simp only [List.forall_mem_append, List.forall_mem_singleton]
  refine ⟨⟨⟨⟨fun _ ht => absurd ht List.not_mem_nil, trivial⟩, trivial⟩, fun _ n => ?_⟩,
    fun _ => ?_⟩
  · rcases n with _ | n
    · exact fun hhalf => hhalf.1 rfl
    · exact id
  · exact fun hhalf => hhalf.2 rfl
