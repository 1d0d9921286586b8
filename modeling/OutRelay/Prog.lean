import Mathlib.Data.List.Basic

/-!
# Procedures and their environment

A handler of a server computes little and asks much: it reads a frame, calls a
service, writes to a connection, and what it does next depends on what came
back. Such a procedure is a tree. A node is an operation, with a branch for
each answer its environment may give; a leaf is a return.

`Path p tr a` says that `tr` is a path through the tree of `p`, from its root
to a return of `a`: the operations that `p` performs, with the answers they
get. A statement about every behaviour of the environment is one about every
path, and `All p Q` is that statement in the form in which it is proved. It is
computed along the tree, so it unfolds at a return and at an operation, and
`all_bind` is its rule for composition. The rule of consequence is `All.imp`.

`Only p S` is the special case of a property of the single events. `run`
follows one path, the one on which the environment answers by a given
function.

A procedure that is one of many goroutines is seen before it returns. `Sites p R`
is a statement about every operation that `p` performs and the events that came
before it, whether or not `p` ever returns.
-/

/-- The operations a procedure may perform, and the type of their answers. -/
structure Interface where
  Op : Type
  Ans : Op → Type

/-- An operation together with its answer. -/
structure Interface.Event (E : Interface) where
  op : E.Op
  ans : E.Ans op

/-- **A procedure** over the interface `E`, with results in `α`. -/
inductive Prog (E : Interface) (α : Type) : Type
  | ret (a : α)
  | call (o : E.Op) (k : E.Ans o → Prog E α)

namespace Prog

variable {E : Interface} {α β : Type}

/-- Run `p`, then `f` on its result. -/
def bind (p : Prog E α) (f : α → Prog E β) : Prog E β :=
  match p with
  | ret a => f a
  | call o k => call o (fun r => (k r).bind f)

instance : Monad (Prog E) where
  pure := ret
  bind := bind

/-- Perform one operation and return its answer. -/
def perform (o : E.Op) : Prog E (E.Ans o) := call o ret

/-- **The paths of a procedure**: what it performs, and what it returns. -/
inductive Path : Prog E α → List E.Event → α → Prop
  | ret (a : α) : Path (ret a) [] a
  | call {o : E.Op} {k : E.Ans o → Prog E α} {tr : List E.Event} {a : α} (r : E.Ans o) :
      Path (k r) tr a → Path (call o k) (⟨o, r⟩ :: tr) a

/-- The path on which the environment answers by `ω`. -/
def run (ω : ∀ o, E.Ans o) : Prog E α → List E.Event × α
  | ret a => ([], a)
  | call o k => (⟨o, ω o⟩ :: (run ω (k (ω o))).fst, (run ω (k (ω o))).snd)

theorem path_run (ω : ∀ o, E.Ans o) (p : Prog E α) : Path p (p.run ω).fst (p.run ω).snd := by
  induction p with
  | ret a => exact .ret a
  | call o k ih => exact .call (ω o) (ih (ω o))

/-! ## Statements about all paths -/

/-- **`Q` holds of every path of `p`.** -/
def All : Prog E α → (List E.Event → α → Prop) → Prop
  | ret a, Q => Q [] a
  | call o k, Q => ∀ r, (k r).All (fun tr a => Q (⟨o, r⟩ :: tr) a)

variable {p : Prog E α} {f : α → Prog E β} {Q Q' : List E.Event → α → Prop}

theorem all_iff : p.All Q ↔ ∀ tr a, Path p tr a → Q tr a := by
  induction p generalizing Q with
  | ret a =>
    constructor
    · intro h tr b hp
      cases hp
      exact h
    · exact fun h => h [] a (.ret a)
  | call o k ih =>
    constructor
    · intro h tr a hp
      cases hp with
      | call r hp => exact (ih r).mp (h r) _ a hp
    · exact fun h r => (ih r).mpr (fun tr a hp => h _ a (.call r hp))

/-- **The rule of consequence.** -/
theorem All.imp (h : p.All Q) (hQ : ∀ tr a, Q tr a → Q' tr a) : p.All Q' :=
  all_iff.mpr (fun tr a hp => hQ tr a (all_iff.mp h tr a hp))

theorem all_perform {o : E.Op} {Q : List E.Event → E.Ans o → Prop} :
    (perform o).All Q ↔ ∀ r, Q [⟨o, r⟩] r := Iff.rfl

/-- **The rule of composition.** -/
theorem all_bind {Q : List E.Event → β → Prop} :
    (p >>= f).All Q ↔ p.All (fun tr a => (f a).All (fun tr' b => Q (tr ++ tr') b)) := by
  show (p.bind f).All Q ↔ _
  induction p generalizing Q with
  | ret a => exact Iff.rfl
  | call o k ih => exact forall_congr' (fun r => ih r)

/-! ## Statements about the single events -/

/-- **Every event of `p` is in `S`.** -/
def Only (p : Prog E α) (S : E.Event → Prop) : Prop := p.All (fun tr _ => ∀ ev ∈ tr, S ev)

variable {S S' : E.Event → Prop}

theorem Only.imp (h : p.Only S) (hS : ∀ ev, S ev → S' ev) : p.Only S' :=
  All.imp h (fun _ _ htr ev hev => hS ev (htr ev hev))

theorem only_pure {a : α} : (pure a : Prog E α).Only S := fun _ h => nomatch h

theorem only_perform {o : E.Op} : (perform o).Only S ↔ ∀ r, S ⟨o, r⟩ := by
  unfold Only
  rw [all_perform]
  exact forall_congr' (fun r => List.forall_mem_singleton)

theorem Only.bind (h : p.Only S) (hf : ∀ a, (f a).Only S) : (p >>= f).Only S := by
  unfold Only
  rw [all_bind]
  refine All.imp h (fun tr a htr => All.imp (hf a) (fun tr' _ htr' ev hev => ?_))
  rcases List.mem_append.mp hev with hev | hev
  · exact htr ev hev
  · exact htr' ev hev

/-! ## Statements about the operations on the way -/

/-- **`R` holds wherever `p` performs an operation**, of the events before it and
of the operation. -/
def Sites : Prog E α → (List E.Event → E.Op → Prop) → Prop
  | ret _, _ => True
  | call o k, R => R [] o ∧ ∀ r, (k r).Sites (fun tr o' => R (⟨o, r⟩ :: tr) o')

variable {R R' : List E.Event → E.Op → Prop}

theorem Sites.imp (h : p.Sites R) (hR : ∀ tr o, R tr o → R' tr o) : p.Sites R' := by
  induction p generalizing R R' with
  | ret a => trivial
  | call o k ih => exact ⟨hR _ _ h.1, fun r => ih r (h.2 r) (fun tr o' => hR _ o')⟩

theorem sites_of_forall (hR : ∀ tr o, R tr o) : p.Sites R := by
  induction p generalizing R with
  | ret a => trivial
  | call o k ih => exact ⟨hR _ _, fun r => ih r (fun tr o' => hR _ o')⟩

theorem sites_perform {o : E.Op} : (perform o).Sites R ↔ R [] o :=
  and_iff_left (fun _ => trivial)

/-- **The rule of composition.** -/
theorem sites_bind : (p >>= f).Sites R
    ↔ p.Sites R ∧ p.All (fun tr a => (f a).Sites (fun tr' o => R (tr ++ tr') o)) := by
  show (p.bind f).Sites R ↔ _
  induction p generalizing R with
  | ret a => exact (and_iff_right trivial).symm
  | call o k ih =>
    show (R [] o ∧ ∀ r, ((k r).bind f).Sites _) ↔ (R [] o ∧ ∀ r, (k r).Sites _) ∧ ∀ r, (k r).All _
    rw [and_assoc, ← forall_and]
    exact and_congr_right (fun _ => forall_congr' (fun r => ih r))

/-- A property of the operations is one of the events. -/
theorem Sites.only {S : E.Op → Prop} (h : p.Sites (fun _ o => S o)) :
    p.Only (fun ev => S ev.op) := by
  induction p with
  | ret a => exact only_pure
  | call o k ih =>
    refine fun r => All.imp (ih r (h.2 r)) (fun tr _ htr => ?_)
    exact List.forall_mem_cons.mpr ⟨h.1, htr⟩

/-- **Every event of a path stands where the procedure has it.** -/
theorem Sites.of_path {tr tr₁ tr₂ : List E.Event} {ev : E.Event} {a : α} (h : p.Sites R)
    (hpath : Path p tr a) (htr : tr = tr₁ ++ ev :: tr₂) : R tr₁ ev.op := by
  induction hpath generalizing R tr₁ with
  | ret a => simp at htr
  | call r _ ih =>
    cases tr₁ with
    | nil =>
      cases htr
      exact h.1
    | cons ev' tr₁ =>
      obtain ⟨rfl, htr'⟩ := List.cons_eq_cons.mp htr
      have hsite := ih (h.2 r) htr'
      exact hsite

/-- **Every operation of `p` is in `A`**, whatever has been answered. -/
def Within (p : Prog E α) (A : E.Op → Prop) : Prop := p.Sites (fun _ o => A o)

variable {A : E.Op → Prop}

theorem within_pure {a : α} : (pure a : Prog E α).Within A := trivial

theorem within_perform {o : E.Op} (ho : A o) : (perform o).Within A := sites_perform.mpr ho

theorem Within.bind (hp : p.Within A) (hf : ∀ a, (f a).Within A) : (p >>= f).Within A :=
  sites_bind.mpr ⟨hp, all_iff.mpr (fun _ a _ => hf a)⟩

theorem Within.only (h : p.Within (fun o => ∀ r, S ⟨o, r⟩)) : p.Only S :=
  Only.imp (Sites.only h) (fun ev hev => hev ev.ans)

end Prog
