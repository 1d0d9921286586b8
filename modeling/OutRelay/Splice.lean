import OutRelay.CopyLoop

/-!
# Splicing two streams

After the handshake the relay copies bytes between the consumer's and the
provider's stream, in both directions at once, until each has ended
(`pkg/splice`). How it ends a direction matters: a FIN on the destination says
that the application is done, and its agent tears the connection down; a reset
says that the transport broke, and the agent keeps the stream for a resume. So
the destination should see a FIN exactly when the source ended with `EOF` and
everything it sent was written (`SpliceTruthful`).

`copyOne` decides from the error of `io.CopyBuffer`, and takes `errors.Is(err,
io.EOF)` for a clean end. `CopyBuffer` itself never returns the source's `EOF`,
which is its nil error, so the test adds only errors that are not that: a read
error that wraps `io.EOF`, and a failed write whose error is or wraps `io.EOF`.
These get a FIN where a reset is due. There is no other exception
(`spliceTruthful_iff`): what is delivered and counted is right in every case, and
a splice in which no direction stops on such an error signals its ends
truthfully.
-/

/-- The QUIC stream error code of a reset by the relay. -/
def abortCode : UInt64 := 0x0A

/-- **The errors of a splice**: those that `CopyBuffer` knows, and `errors.Is(err,
io.EOF)`. -/
structure SpliceErrors (ε : Type) extends CopyErrors ε where
  isEOF : ε → Bool
  isEOF_eof : isEOF eof = true
  isEOF_shortWrite : isEOF shortWrite = false

/-- **A stream**, by what it answers to reads and to writes, and by the two
interfaces that it may satisfy. -/
structure SpliceStream (β ε : Type) where
  reads : List (ReadResult β ε)
  writes : List (WriteResult ε)
  halfCloser : Bool
  aborter : Bool

/-- A stream that can be half-closed and reset, as QUIC's can. -/
def SpliceStream.Full {β ε : Type} (s : SpliceStream β ε) : Prop :=
  s.halfCloser = true ∧ s.aborter = true

/-- What a splice does to its destination besides writing. -/
inductive StreamSignal
  | closeWrite
  | cancelWrite (code : UInt64)
  | cancelRead (code : UInt64)
  deriving DecidableEq

/-- One direction, so far: the bytes delivered, the signals given, and what the
copy has returned, if it has. -/
structure OneWay (β ε : Type) where
  delivered : List β
  signals : List StreamSignal
  returned : Option (ℕ × Option ε)
  deriving DecidableEq

section Splice

variable {β ε : Type} [DecidableEq ε] (E : SpliceErrors ε)

omit [DecidableEq ε] in
/-- What `copyOne` does after the copy has returned with `err`: the signals to
the destination, and the error that it returns itself. -/
def settle (dst : SpliceStream β ε) (err : Option ε) : List StreamSignal × Option ε :=
  -- `err == nil || errors.Is(err, io.EOF)`
  if err.all E.isEOF then
    (if dst.halfCloser then [.closeWrite] else [], none)
  else
    (if dst.aborter then [.cancelWrite abortCode, .cancelRead abortCode]
      else if dst.halfCloser then [.closeWrite] else [], err)

/-- **`copyOne`**: one direction. -/
def copyOne (dst src : SpliceStream β ε) : OneWay β ε :=
  let c := copyBuffer E.toCopyErrors src.reads dst.writes
  match c.result with
  | none => ⟨c.delivered, [], none⟩
  | some err => ⟨c.delivered, (settle E dst err).1, some (c.written, (settle E dst err).2)⟩

/-- The results of the two directions, in the order in which they arrive: the
total, and the first error. -/
def collect (results : List (ℕ × Option ε)) : ℕ × Option ε :=
  results.foldl (fun acc r =>
    (acc.1 + r.1, if r.2.isSome && acc.2.isNone then r.2 else acc.2)) (0, none)

/-- **`Bidirectional`**. It returns when both directions have; `aFirst` says
whether that from `a` is the first to. -/
def bidirectional (a b : SpliceStream β ε) (aFirst : Bool) : Option (ℕ × Option ε) :=
  match (copyOne E b a).returned, (copyOne E a b).returned with
  | some forth, some back => some (collect (if aFirst then [forth, back] else [back, forth]))
  | _, _ => none

/-! ## The promise -/

/-- **One direction delivers a prefix and signals its end truthfully.** A clean end
is one with `EOF` from the source and each of its chunks written in full. -/
structure Truthful (dst src : SpliceStream β ε) : Prop where
  delivers : (copyOne E dst src).delivered <+: sourceBytes src.reads
  counts : ∀ r, (copyOne E dst src).returned = some r →
    r.1 = (copyOne E dst src).delivered.length
  whole : Ends E.toCopyErrors src.reads dst.writes none →
    (copyOne E dst src).delivered = sourceBytes src.reads
  fin : (copyOne E dst src).signals = [.closeWrite]
    ↔ Ends E.toCopyErrors src.reads dst.writes none
  abort : ∀ err, Ends E.toCopyErrors src.reads dst.writes (some err) →
    (copyOne E dst src).signals = [.cancelWrite abortCode, .cancelRead abortCode]

/-- **The splice of two streams is truthful**: each direction is, and what
`Bidirectional` returns when both have ended is the sum of their counts, with a
nil error exactly if both ended cleanly. -/
structure SpliceTruthful (a b : SpliceStream β ε) : Prop where
  forth : Truthful E b a
  back : Truthful E a b
  returns : ∀ aFirst, (bidirectional E a b aFirst).isSome = true
    ↔ (∃ x, Ends E.toCopyErrors a.reads b.writes x) ∧ ∃ x, Ends E.toCopyErrors b.reads a.writes x
  total : ∀ aFirst n err, bidirectional E a b aFirst = some (n, err) →
    n = (copyOne E b a).delivered.length + (copyOne E a b).delivered.length
  clean : ∀ aFirst n err, bidirectional E a b aFirst = some (n, err) →
    (err = none ↔ Ends E.toCopyErrors a.reads b.writes none
      ∧ Ends E.toCopyErrors b.reads a.writes none)

/-- The copy from `src` to `dst` **stops on a false `EOF`**: an error other than
the source's `EOF` for which `errors.Is(err, io.EOF)` holds. -/
def StopsOnFalseEOF (dst src : SpliceStream β ε) : Prop :=
  ∃ err, Ends E.toCopyErrors src.reads dst.writes (some err) ∧ E.isEOF err = true

/-! ## One direction -/

variable {E} {a b dst src : SpliceStream β ε} {x : Option ε}

omit [DecidableEq ε] in
/-- A clean end is signalled by a FIN. -/
theorem settle_of_all (hdst : dst.Full) (h : x.all E.isEOF = true) :
    settle E dst x = ([.closeWrite], none) := by
  unfold settle
  rw [if_pos h, if_pos hdst.1]

omit [DecidableEq ε] in
/-- Any other end is signalled by a reset, and its error returned. -/
theorem settle_of_not_all (hdst : dst.Full) (h : ¬ x.all E.isEOF = true) :
    settle E dst x = ([.cancelWrite abortCode, .cancelRead abortCode], x) := by
  unfold settle
  rw [if_neg h, if_pos hdst.2]

/-- What is delivered is what the copy delivers, whether it has returned or not. -/
theorem copyOne_delivered (E : SpliceErrors ε) (dst src : SpliceStream β ε) :
    (copyOne E dst src).delivered
      = (copyBuffer E.toCopyErrors src.reads dst.writes).delivered := by
  unfold copyOne
  dsimp only
  split <;> rfl

/-- **A direction that has ended**, in closed form. -/
theorem copyOne_of_ends (h : Ends E.toCopyErrors src.reads dst.writes x) :
    copyOne E dst src = ⟨(copyOne E dst src).delivered, (settle E dst x).1,
      some ((copyOne E dst src).delivered.length, (settle E dst x).2)⟩ := by
  have hres := (copyBuffer_result_iff _ _ _ _).mpr h
  rw [copyOne_delivered, ← (copyBuffer_delivered _ _ _).2]
  unfold copyOne
  simp only [hres]

/-- A direction returns, or signals, only if it has ended. -/
theorem copyOne_of_not_ends (h : ∀ x, ¬ Ends E.toCopyErrors src.reads dst.writes x) :
    (copyOne E dst src).signals = [] ∧ (copyOne E dst src).returned = none := by
  have hres : (copyBuffer E.toCopyErrors src.reads dst.writes).result = none :=
    Option.eq_none_iff_forall_ne_some.mpr fun x hx => h x ((copyBuffer_result_iff _ _ _ _).mp hx)
  unfold copyOne
  simp only [hres, and_self]

/-- A copy ends in one way. -/
theorem ends_unique {y : Option ε} (hx : Ends E.toCopyErrors src.reads dst.writes x)
    (hy : Ends E.toCopyErrors src.reads dst.writes y) : x = y :=
  Option.some.inj (((copyBuffer_result_iff _ _ _ _).mpr hx).symm.trans
    ((copyBuffer_result_iff _ _ _ _).mpr hy))

/-- The direction has returned exactly if the copy has ended. -/
theorem returned_iff :
    (copyOne E dst src).returned.isSome = true
      ↔ ∃ x, Ends E.toCopyErrors src.reads dst.writes x := by
  by_cases h : ∃ x, Ends E.toCopyErrors src.reads dst.writes x
  · obtain ⟨x, hx⟩ := h
    rw [copyOne_of_ends hx]
    exact ⟨fun _ => ⟨x, hx⟩, fun _ => rfl⟩
  · rw [(copyOne_of_not_ends (not_exists.mp h)).2]
    exact ⟨fun hnone => absurd hnone Bool.false_ne_true, fun hx => absurd hx h⟩

/-- The count is that of the bytes delivered. -/
theorem count_of_returned {r : ℕ × Option ε} (h : (copyOne E dst src).returned = some r) :
    r.1 = (copyOne E dst src).delivered.length := by
  obtain ⟨x, hx⟩ := returned_iff.mp (Option.isSome_iff_exists.mpr ⟨r, h⟩)
  rw [copyOne_of_ends hx] at h
  rw [← Option.some.inj h]

omit [DecidableEq ε] in
/-- Where no false `EOF` stops the copy, its error is that of a clean end only
if it has ended cleanly. -/
theorem all_isEOF_iff (hno : ¬ StopsOnFalseEOF E dst src)
    (hx : Ends E.toCopyErrors src.reads dst.writes x) : x.all E.isEOF = true ↔ x = none := by
  cases x with
  | none => exact ⟨fun _ => rfl, fun _ => rfl⟩
  | some err =>
    have herr : ¬ E.isEOF err = true := fun h => hno ⟨err, hx, h⟩
    exact ⟨fun h => absurd h herr, fun h => nomatch h⟩

/-- **A direction signals its end truthfully exactly if it does not stop on a
false `EOF`.** -/
theorem truthful_iff (hdst : dst.Full) : Truthful E dst src ↔ ¬ StopsOnFalseEOF E dst src := by
  constructor
  · -- on a false `EOF` the FIN stands in the place of the reset
    rintro ⟨-, -, -, -, habort⟩ ⟨err, hends, heof⟩
    have hfin := settle_of_all (x := some err) hdst heof
    have hsignals := habort err hends
    rw [copyOne_of_ends hends, hfin] at hsignals
    cases hsignals
  · intro hno
    refine ⟨?_, fun r => count_of_returned, fun hends => ?_, ?_, ?_⟩
    · rw [copyOne_delivered]
      exact (copyBuffer_delivered _ _ _).1
    · rw [copyOne_delivered]
      exact hends.delivered_eq
    · by_cases hends : ∃ x, Ends E.toCopyErrors src.reads dst.writes x
      · obtain ⟨x, hx⟩ := hends
        rw [copyOne_of_ends hx]
        by_cases hall : x.all E.isEOF = true
        · rw [settle_of_all hdst hall]
          exact ⟨fun _ => (all_isEOF_iff hno hx).mp hall ▸ hx, fun _ => rfl⟩
        · rw [settle_of_not_all hdst hall]
          refine ⟨fun h => ?_, fun h => absurd ?_ hall⟩
          · cases h
          · exact ends_unique hx h ▸ rfl
      · rw [(copyOne_of_not_ends (not_exists.mp hends)).1]
        refine ⟨fun h => ?_, fun h => absurd ⟨none, h⟩ hends⟩
        cases h
    · intro err hends
      have hall : ¬ (some err).all E.isEOF = true := fun h => hno ⟨err, hends, h⟩
      rw [copyOne_of_ends hends, settle_of_not_all hdst hall]

omit [DecidableEq ε] in
/-- The results of two directions. -/
theorem collect_pair (r r' : ℕ × Option ε) :
    collect [r, r'] = (r.1 + r'.1, r.2.or r'.2) := by
  obtain ⟨n, err⟩ := r
  obtain ⟨n', err'⟩ := r'
  cases err <;> cases err' <;> simp [collect]

/-! ## Both directions -/

/-- **`Bidirectional` returns both results**, its error nil exactly if theirs are. -/
theorem bidirectional_eq_some {aFirst : Bool} {n : ℕ} {err : Option ε}
    (h : bidirectional E a b aFirst = some (n, err)) :
    ∃ forth back, (copyOne E b a).returned = some forth ∧ (copyOne E a b).returned = some back
      ∧ n = forth.1 + back.1 ∧ (err = none ↔ forth.2 = none ∧ back.2 = none) := by
  unfold bidirectional at h
  split at h
  case h_2 => cases h
  case h_1 forth back hforth hback =>
    refine ⟨forth, back, hforth, hback, ?_⟩
    cases aFirst with
    | true =>
      rw [if_pos rfl, collect_pair] at h
      cases h
      exact ⟨rfl, Option.or_eq_none_iff⟩
    | false =>
      rw [if_neg Bool.false_ne_true, collect_pair] at h
      cases h
      exact ⟨Nat.add_comm _ _, Option.or_eq_none_iff.trans and_comm⟩

/-- `Bidirectional` returns once both directions have. -/
theorem bidirectional_isSome (aFirst : Bool) :
    (bidirectional E a b aFirst).isSome = true
      ↔ (copyOne E b a).returned.isSome = true ∧ (copyOne E a b).returned.isSome = true := by
  unfold bidirectional
  cases (copyOne E b a).returned <;> cases (copyOne E a b).returned <;> simp

/-- The error of a direction is nil exactly if it ended cleanly. -/
theorem error_eq_none_iff {r : ℕ × Option ε} (hdst : dst.Full)
    (hno : ¬ StopsOnFalseEOF E dst src) (h : (copyOne E dst src).returned = some r) :
    r.2 = none ↔ Ends E.toCopyErrors src.reads dst.writes none := by
  obtain ⟨x, hx⟩ := returned_iff.mp (Option.isSome_iff_exists.mpr ⟨r, h⟩)
  rw [copyOne_of_ends hx] at h
  rw [← Option.some.inj h]
  by_cases hall : x.all E.isEOF = true
  · rw [settle_of_all hdst hall]
    exact ⟨fun _ => (all_isEOF_iff hno hx).mp hall ▸ hx, fun _ => rfl⟩
  · rw [settle_of_not_all hdst hall]
    exact ⟨fun hnone => hnone ▸ hx, fun hnone => ends_unique hx hnone⟩

omit [DecidableEq ε] in
/-- No false `EOF` stops a copy in which no failing write, and no failing read but
for `EOF` itself, has an error that wraps `io.EOF`. A short write never does. -/
theorem not_stopsOnFalseEOF
    (hreads : ∀ r ∈ src.reads, ∀ err, r.err = some err → err ≠ E.eof → E.isEOF err = false)
    (hwrites : ∀ w ∈ dst.writes, ∀ err, w.err = some err → E.isEOF err = false) :
    ¬ StopsOnFalseEOF E dst src := by
  rintro ⟨err, hends, heof⟩
  have hfalse : E.isEOF err = false := by
    obtain ⟨r, hr, herr, hne⟩ | ⟨w, hw, herr⟩ | hshort := hends.err_cases
    · exact hreads r hr err herr hne
    · exact hwrites w hw err herr
    · rw [hshort]
      exact E.isEOF_shortWrite
  rw [hfalse] at heof
  cases heof

/-- **A splice is truthful exactly if no direction stops on a false `EOF`.** -/
theorem spliceTruthful_iff (ha : a.Full) (hb : b.Full) :
    SpliceTruthful E a b ↔ ¬ StopsOnFalseEOF E b a ∧ ¬ StopsOnFalseEOF E a b := by
  constructor
  · intro h
    exact ⟨(truthful_iff hb).mp h.forth, (truthful_iff ha).mp h.back⟩
  · rintro ⟨hforth, hback⟩
    refine ⟨(truthful_iff hb).mpr hforth, (truthful_iff ha).mpr hback, ?_, ?_, ?_⟩
    · intro aFirst
      rw [bidirectional_isSome, returned_iff, returned_iff]
    · intro aFirst n err h
      obtain ⟨forth, back, hf, hk, hn, -⟩ := bidirectional_eq_some h
      rw [hn, count_of_returned hf, count_of_returned hk]
    · intro aFirst n err h
      obtain ⟨forth, back, hf, hk, -, herr⟩ := bidirectional_eq_some h
      rw [herr, error_eq_none_iff hb hforth hf, error_eq_none_iff ha hback hk]

end Splice

/-! ## Errors of Go, and two splices -/

/-- Errors as Go builds them: the two that the copy knows, others, and an error
that wraps another. -/
inductive GoError
  | eof
  | shortWrite
  | other (code : ℕ)
  | wrap (err : GoError)
  deriving DecidableEq

/-- `errors.Is(err, io.EOF)`. -/
def GoError.isEOF : GoError → Bool
  | .eof => true
  | .wrap err => err.isEOF
  | .shortWrite | .other _ => false

/-- The errors of a splice, in Go. -/
def goErrors : SpliceErrors GoError where
  eof := .eof
  shortWrite := .shortWrite
  isEOF := GoError.isEOF
  isEOF_eof := rfl
  isEOF_shortWrite := rfl

/-- A stream whose reads and writes are as given, and that has both interfaces. -/
def quicStream (reads : List (ReadResult UInt8 GoError)) (writes : List (WriteResult GoError)) :
    SpliceStream UInt8 GoError where
  reads := reads
  writes := writes
  halfCloser := true
  aborter := true

/-- A stream that sends three bytes, and then ends, and takes all that is written. -/
def threeBytes : SpliceStream UInt8 GoError :=
  quicStream [⟨[1, 2, 3], none⟩, ⟨[], some .eof⟩] [⟨3, none⟩]

/-- **A write that fails with `io.EOF` passes for a clean end.** The stream `b`
takes one byte of three and fails; it gets a FIN, and `Bidirectional` returns one
byte and no error. -/
theorem write_eof_sends_fin :
    threeBytes.Full ∧ (quicStream [⟨[], some .eof⟩] [⟨1, some .eof⟩]).Full
      ∧ copyOne goErrors (quicStream [⟨[], some .eof⟩] [⟨1, some .eof⟩]) threeBytes
        = ⟨[1], [.closeWrite], some (1, none)⟩
      ∧ bidirectional goErrors threeBytes (quicStream [⟨[], some .eof⟩] [⟨1, some .eof⟩]) true
        = some (1, none)
      ∧ ¬ SpliceTruthful goErrors threeBytes
        (quicStream [⟨[], some .eof⟩] [⟨1, some .eof⟩]) := by
  refine ⟨⟨rfl, rfl⟩, ⟨rfl, rfl⟩, rfl, rfl, ?_⟩
  intro h
  have hwrite : writeChunk goErrors.toCopyErrors [(1 : UInt8), 2, 3] [⟨1, some .eof⟩]
      = .failed 1 .eof := rfl
  have hends : Ends goErrors.toCopyErrors threeBytes.reads
      (quicStream [⟨[], some .eof⟩] [⟨1, some .eof⟩]).writes (some .eof) := .writeError hwrite
  exact (truthful_iff ⟨rfl, rfl⟩).mp h.forth ⟨.eof, hends, goErrors.isEOF_eof⟩

/-- A splice in which one direction ends cleanly and the other is cut by a read
error. -/
theorem cut_splice_truthful :
    SpliceTruthful goErrors threeBytes (quicStream [⟨[7], some (.other 1)⟩] [⟨3, none⟩]) := by
  refine (spliceTruthful_iff ⟨rfl, rfl⟩ ⟨rfl, rfl⟩).mpr ⟨?_, ?_⟩
  · exact not_stopsOnFalseEOF (by decide) (by decide)
  · exact not_stopsOnFalseEOF (by decide) (by decide)
