import Mathlib.Data.List.Basic

/-!
# Frames on a shared stream

A stream to which several parties write is a list of bytes, each marked with the
frame it belongs to. The frames are whole on it when the stream is one frame
after another, the last one perhaps unfinished.

`not_whole_of_only` is what a frame cut in two looks like: its bytes are on the
stream, not all of them, and the stream goes on with another one's.
-/

namespace Framing

variable {ι α : Type}

/-- The bytes of a frame, marked. -/
def mark (i : ι) (xs : List α) : List (ι × α) := xs.map (Prod.mk i)

/-- One frame after another. -/
def whole (fs : List (ι × List α)) : List (ι × α) := fs.flatMap (fun f => mark f.fst f.snd)

@[simp] theorem mark_nil (i : ι) : mark i ([] : List α) = [] := rfl

theorem mark_append (i : ι) (xs ys : List α) : mark i (xs ++ ys) = mark i xs ++ mark i ys :=
  List.map_append

theorem mem_mark {i : ι} {xs : List α} {b : ι × α} (hb : b ∈ mark i xs) : b.fst = i := by
  obtain ⟨x, -, rfl⟩ := List.mem_map.mp hb
  rfl

theorem mark_ne_nil {i : ι} {xs : List α} (hxs : xs ≠ []) : mark i xs ≠ [] := by
  rwa [mark, ne_eq, List.map_eq_nil_iff]

theorem whole_concat (fs : List (ι × List α)) (i : ι) (xs : List α) :
    whole (fs ++ [(i, xs)]) = whole fs ++ mark i xs := by
  simp [whole]

theorem sublist_whole {fs : List (ι × List α)} {i : ι} {f : List α} (hf : (i, f) ∈ fs) :
    (mark i f).Sublist (whole fs) := by
  rw [whole, List.flatMap_def]
  exact List.sublist_flatten_of_mem (List.mem_map.mpr ⟨(i, f), hf, rfl⟩)

/-- The marks forgotten, whole frames are the frames end to end. -/
theorem map_snd_whole (fs : List (ι × List α)) :
    (whole fs).map Prod.snd = (fs.map Prod.snd).flatten := by
  induction fs with
  | nil => rfl
  | cons f fs ih =>
    rw [List.map_cons, List.flatten_cons, ← ih, whole, List.flatMap_cons, List.map_append]
    congr 1
    rw [mark, List.map_map]
    exact List.map_id f.snd

section Only

variable [DecidableEq ι]

/-- The bytes of one frame on a stream. -/
def only (i : ι) (l : List (ι × α)) : List (ι × α) := l.filter (fun b => b.fst = i)

theorem only_append (i : ι) (l l' : List (ι × α)) : only i (l ++ l') = only i l ++ only i l' :=
  List.filter_append l l'

theorem only_mark_self (i : ι) (xs : List α) : only i (mark i xs) = mark i xs := by
  rw [only, List.filter_eq_self]
  exact fun b hb => decide_eq_true (mem_mark hb)

theorem only_mark_of_ne {i j : ι} (hij : j ≠ i) (xs : List α) : only i (mark j xs) = [] := by
  rw [only, List.filter_eq_nil_iff]
  intro b hb hi
  exact hij ((mem_mark hb).symm.trans (of_decide_eq_true hi))

theorem only_eq_nil {i : ι} {l : List (ι × α)} (h : ∀ b ∈ l, b.fst ≠ i) : only i l = [] := by
  rw [only, List.filter_eq_nil_iff]
  exact fun b hb hi => h b hb (of_decide_eq_true hi)

/-- **A frame cut in two.** A beginning `d` of the frame `f` of `i` is on the stream,
and the stream ends with a byte of another one: then the frames are not whole. -/
theorem not_whole_of_only {i j : ι} {f d part : List α} {l : List (ι × α)}
    {fs : List (ι × List α)} (hown : only i l = mark i d) (hd : d ≠ [])
    (hlt : d.length < f.length) (hlast : ∀ b, l.getLast? = some b → b.fst ≠ i)
    (hfs : ∀ g, (i, g) ∈ fs → g = f) : l ≠ whole fs ++ mark j part := by
  intro hl
  -- the frame is not among the whole ones: not all of its bytes are there
  have hnot : ∀ g, (i, g) ∉ fs := by
    intro g hg
    have hsub : (mark i f).Sublist l := by
      rw [hl, ← hfs g hg]
      exact (sublist_whole hg).trans (List.sublist_append_left _ _)
    have hle := (hsub.filter (fun b => b.fst = i)).length_le
    rw [← only, ← only, only_mark_self, hown, mark, mark, List.length_map, List.length_map] at hle
    exact absurd hlt (Nat.not_lt.mpr hle)
  -- so its bytes are in the last one, which therefore ends the stream
  obtain ⟨x, xs, rfl⟩ := List.exists_cons_of_ne_nil hd
  have hmem : (i, x) ∈ l := by
    have hx : (i, x) ∈ only i l := by
      rw [hown]
      exact List.mem_cons_self
    exact List.mem_of_mem_filter hx
  rw [hl] at hmem
  rcases List.mem_append.mp hmem with hmem | hmem
  · obtain ⟨⟨k, g⟩, hg, hx⟩ := List.mem_flatMap.mp hmem
    have hik : i = k := mem_mark hx
    exact hnot g (hik ▸ hg)
  · have hij : i = j := mem_mark hmem
    have hpart := List.ne_nil_of_mem hmem
    refine hlast ((mark j part).getLast hpart) ?_
      ((mem_mark (List.getLast_mem hpart)).trans hij.symm)
    rw [hl, List.getLast?_append, List.getLast?_eq_getLast_of_ne_nil hpart]
    rfl

end Only

end Framing
