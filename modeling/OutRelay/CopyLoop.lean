import Mathlib.Data.List.Basic

/-!
# Copying from a reader to a writer

`io.CopyBuffer` reads chunks from a source and writes them to a destination
until the source ends or something fails, and returns the number of bytes
written and an error. The source and the destination are their answers: a read
gives bytes and perhaps an error, `EOF` among them, and a write takes so many
bytes and perhaps fails. A script that has run out is a call that does not
return; the copy is then in progress.

`Ends` says how a copy ends, in terms of the two scripts: with no error, when the
source gives `EOF` and every chunk up to there has been written, or else with the
first error that comes up. Two facts connect the loop to it. What it delivers is a
beginning of what the source has, all of it if it ends cleanly, and it counts
what it delivers (`copyBuffer_delivered`, `Ends.delivered_eq`); and it returns as
it ends (`copyBuffer_result_iff`).
-/

/-- What a `Read` returns. The bytes come first, whatever the error. -/
structure ReadResult (β ε : Type) where
  data : List β
  err : Option ε

/-- What a `Write` returns: how many of the bytes it is given it takes, at most,
and an error. -/
structure WriteResult (ε : Type) where
  taken : ℕ
  err : Option ε

/-- The two errors that the loop knows by name. -/
structure CopyErrors (ε : Type) where
  eof : ε
  shortWrite : ε

/-- What becomes of a chunk: the write does not return, all is written and the
next writes are as given, or so many bytes are taken and the copy fails. -/
inductive ChunkFate (ε : Type)
  | blocked
  | written (rest : List (WriteResult ε))
  | failed (taken : ℕ) (err : ε)

/-- A copy, so far: the bytes that the destination has taken, their number, and
the error with which it has returned, if it has. -/
structure Copied (β ε : Type) where
  delivered : List β
  written : ℕ
  result : Option (Option ε)

section Copy

variable {β ε : Type} (E : CopyErrors ε)

/-- Write a chunk. An empty one is not written. -/
def writeChunk (data : List β) (writes : List (WriteResult ε)) : ChunkFate ε :=
  if data = [] then .written writes
  else match writes with
    | [] => .blocked
    | w :: writes =>
      match w.err with
      | some err => .failed (min w.taken data.length) err
      | none =>
        if data.length ≤ w.taken then .written writes
        else .failed w.taken E.shortWrite

/-- **`io.CopyBuffer`**, from a source that reads as given to a destination that
writes as given. -/
def copyBuffer [DecidableEq ε] : List (ReadResult β ε) → List (WriteResult ε) → Copied β ε
  | [], _ => ⟨[], 0, none⟩
  | r :: reads, writes =>
    match writeChunk E r.data writes with
    | .blocked => ⟨[], 0, none⟩
    | .failed taken err => ⟨r.data.take taken, taken, some (some err)⟩
    | .written writes =>
      match r.err with
      | some err => ⟨r.data, r.data.length, some (if err = E.eof then none else some err)⟩
      | none =>
        let rest := copyBuffer reads writes
        ⟨r.data ++ rest.delivered, r.data.length + rest.written, rest.result⟩

/-- **What the source has**: its bytes up to the first error. -/
def sourceBytes : List (ReadResult β ε) → List β
  | [] => []
  | r :: reads => r.data ++ if r.err = none then sourceBytes reads else []

/-- **How a copy ends**, read off the two scripts: with no error at `EOF`, every
chunk up to there written, or with the first error that a read or a write gives. -/
inductive Ends : List (ReadResult β ε) → List (WriteResult ε) → Option ε → Prop
  | eof {r : ReadResult β ε} {reads : List (ReadResult β ε)}
      {writes writes' : List (WriteResult ε)} :
      writeChunk E r.data writes = .written writes' → r.err = some E.eof →
      Ends (r :: reads) writes none
  | readError {r : ReadResult β ε} {reads : List (ReadResult β ε)}
      {writes writes' : List (WriteResult ε)} {err : ε} :
      writeChunk E r.data writes = .written writes' → r.err = some err → err ≠ E.eof →
      Ends (r :: reads) writes (some err)
  | writeError {r : ReadResult β ε} {reads : List (ReadResult β ε)}
      {writes : List (WriteResult ε)} {taken : ℕ} {err : ε} :
      writeChunk E r.data writes = .failed taken err → Ends (r :: reads) writes (some err)
  | more {r : ReadResult β ε} {reads : List (ReadResult β ε)}
      {writes writes' : List (WriteResult ε)} {x : Option ε} :
      writeChunk E r.data writes = .written writes' → r.err = none → Ends reads writes' x →
      Ends (r :: reads) writes x

variable {E} {reads : List (ReadResult β ε)} {writes : List (WriteResult ε)} {err : ε}

/-- A write takes no more than it is given. -/
theorem taken_le_of_writeChunk {data : List β} {taken : ℕ}
    (h : writeChunk E data writes = .failed taken err) : taken ≤ data.length := by
  unfold writeChunk at h
  split_ifs at h
  split at h
  · cases h
  · split at h
    · cases h
      exact Nat.min_le_right _ _
    · split_ifs at h with hlen
      cases h
      exact Nat.le_of_lt (Nat.lt_of_not_le hlen)

/-- A chunk that fails fails on the write's own error, or because the write was
short. -/
theorem err_of_writeChunk {data : List β} {taken : ℕ}
    (h : writeChunk E data writes = .failed taken err) :
    (∃ w ∈ writes, w.err = some err) ∨ err = E.shortWrite := by
  unfold writeChunk at h
  split_ifs at h
  split at h
  · cases h
  case h_2 w writes =>
    split at h
    case h_1 err' herr =>
      cases h
      exact Or.inl ⟨w, List.mem_cons_self, herr⟩
    · split_ifs at h
      cases h
      exact Or.inr rfl

/-- The writes that are left are among those there were. -/
theorem subset_of_writeChunk {data : List β} {writes' : List (WriteResult ε)}
    (h : writeChunk E data writes = .written writes') : writes' ⊆ writes := by
  unfold writeChunk at h
  split_ifs at h
  · cases h
    exact List.Subset.refl _
  · split at h
    · cases h
    · split at h
      · cases h
      · split_ifs at h
        cases h
        exact List.subset_cons_self _ _

/-- **An error on which the copy ends** is that of a read, other than `EOF`, or of
a write, or says that a write was short. -/
theorem Ends.err_cases (h : Ends E reads writes (some err)) :
    (∃ r ∈ reads, r.err = some err ∧ err ≠ E.eof) ∨ (∃ w ∈ writes, w.err = some err)
      ∨ err = E.shortWrite := by
  generalize hx : some err = x at h
  induction h with
  | eof => cases hx
  | readError _ hr hne =>
    cases hx
    exact Or.inl ⟨_, List.mem_cons_self, hr, hne⟩
  | writeError hw =>
    cases hx
    exact Or.inr (err_of_writeChunk hw)
  | more hw _ _ ih =>
    obtain ⟨r, hr, herr⟩ | ⟨w, hmem, herr⟩ | hshort := ih hx
    · exact Or.inl ⟨r, List.mem_cons_of_mem _ hr, herr⟩
    · exact Or.inr (Or.inl ⟨w, subset_of_writeChunk hw hmem, herr⟩)
    · exact Or.inr (Or.inr hshort)

variable [DecidableEq ε]

/-- **The copy delivers a beginning of the source**, and counts it. -/
theorem copyBuffer_delivered (E : CopyErrors ε) (reads : List (ReadResult β ε))
    (writes : List (WriteResult ε)) :
    (copyBuffer E reads writes).delivered <+: sourceBytes reads
      ∧ (copyBuffer E reads writes).written = (copyBuffer E reads writes).delivered.length := by
  induction reads generalizing writes with
  | nil => exact ⟨List.nil_prefix, rfl⟩
  | cons r reads ih =>
    unfold copyBuffer sourceBytes
    cases hw : writeChunk E r.data writes with
    | blocked => exact ⟨List.nil_prefix, rfl⟩
    | failed taken err =>
      refine ⟨(List.take_prefix _ _).trans (List.prefix_append _ _), ?_⟩
      exact (List.length_take_of_le (taken_le_of_writeChunk hw)).symm
    | written writes' =>
      cases hr : r.err with
      | some err => exact ⟨List.prefix_append _ _, rfl⟩
      | none =>
        dsimp only
        rw [if_pos rfl, List.length_append, (ih writes').2]
        exact ⟨List.prefix_append_right_inj _ |>.mpr (ih writes').1, rfl⟩

/-- **The copy returns as it ends**, and only then. -/
theorem copyBuffer_result_iff (E : CopyErrors ε) (reads : List (ReadResult β ε))
    (writes : List (WriteResult ε)) (x : Option ε) :
    (copyBuffer E reads writes).result = some x ↔ Ends E reads writes x := by
  constructor
  · -- each return of the loop is a constructor
    intro h
    induction reads generalizing writes with
    | nil => cases h
    | cons r reads ih =>
      unfold copyBuffer at h
      cases hw : writeChunk E r.data writes with
      | blocked =>
        rw [hw] at h
        cases h
      | failed taken err =>
        rw [hw] at h
        cases h
        exact .writeError hw
      | written writes' =>
        rw [hw] at h
        cases hr : r.err with
        | none =>
          rw [hr] at h
          exact .more hw hr (ih writes' h)
        | some err =>
          rw [hr] at h
          by_cases heof : err = E.eof
          · cases (if_pos heof).symm.trans (Option.some.inj h)
            exact .eof hw (heof ▸ hr)
          · cases (if_neg heof).symm.trans (Option.some.inj h)
            exact .readError hw hr heof
  · intro h
    induction h with
    | eof hw hr => simp only [copyBuffer, hw, hr, if_pos]
    | readError hw hr hne => simp only [copyBuffer, hw, hr, if_neg hne]
    | writeError hw => simp only [copyBuffer, hw]
    | more hw hr _ ih => simp only [copyBuffer, hw, hr, ih]

/-- **A copy that ends cleanly has delivered the whole source.** -/
theorem Ends.delivered_eq (h : Ends E reads writes none) :
    (copyBuffer E reads writes).delivered = sourceBytes reads := by
  generalize hx : (none : Option ε) = x at h
  induction h with
  | eof hw hr => simp [copyBuffer, sourceBytes, hw, hr]
  | readError | writeError => cases hx
  | more hw hr _ ih => simp only [copyBuffer, sourceBytes, hw, hr, ih hx, if_pos]

end Copy
