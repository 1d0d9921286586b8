import OutRelay.Loop

/-!
# Procedures that owe

An event may put a procedure under a duty: a request that has been read is to be
answered, a decision that has been made is to be written down. `Duties` says which
events do, and which operations discharge what. A procedure is *prompt* if it never
lets a duty wait: wherever it performs an operation, what it has come to owe is what
it has discharged and what this operation discharges, in that order, and where it
returns all is discharged. So nothing is discharged twice, out of order or without
need, and nothing is left.

`due` is what is owed before the first event. A procedure with nothing due can be
judged by itself, and composes with what comes before and after (`Prompt.bind`,
`Prompt.rounds`).
-/

/-- **What the events of an interface make one owe**, and what its operations
discharge. -/
structure Duties (E : Interface) (δ : Type) where
  owes : E.Event → Option δ
  pays : E.Op → Option δ

namespace Duties

variable {E : Interface} {α β δ : Type}

/-- What has been owed. -/
def owed (D : Duties E δ) (tr : List E.Event) : List δ := tr.filterMap D.owes

/-- What has been discharged. -/
def paid (D : Duties E δ) (tr : List E.Event) : List δ := tr.filterMap fun ev => D.pays ev.op

/-- **The procedure discharges every duty at once**, where `due` is owed already. -/
structure Prompt (D : Duties E δ) (due : List δ) (p : Prog E α) : Prop where
  sites : p.Sites fun tr o => due ++ D.owed tr = D.paid tr ++ (D.pays o).toList
  paths : p.All fun tr _ => due ++ D.owed tr = D.paid tr

variable {D : Duties E δ} {due : List δ} {p : Prog E α} {f : α → Prog E β}

theorem owed_append (tr tr' : List E.Event) : D.owed (tr ++ tr') = D.owed tr ++ D.owed tr' :=
  List.filterMap_append

theorem paid_append (tr tr' : List E.Event) : D.paid (tr ++ tr') = D.paid tr ++ D.paid tr' :=
  List.filterMap_append

theorem owed_cons (ev : E.Event) (tr : List E.Event) :
    D.owed (ev :: tr) = (D.owes ev).toList ++ D.owed tr := by
  unfold owed
  cases h : D.owes ev <;> simp [h]

theorem paid_cons (ev : E.Event) (tr : List E.Event) :
    D.paid (ev :: tr) = (D.pays ev.op).toList ++ D.paid tr := by
  unfold paid
  cases h : D.pays ev.op <;> simp [h]

theorem prompt_pure {a : α} : D.Prompt [] (pure a : Prog E α) := ⟨trivial, rfl⟩

/-- **The rule for an operation**: it discharges what is due, and the rest what its
event makes one owe. -/
theorem Prompt.call {o : E.Op} {k : E.Ans o → Prog E β} (ho : due = (D.pays o).toList)
    (hk : ∀ r, D.Prompt (D.owes ⟨o, r⟩).toList (k r)) : D.Prompt due (Prog.perform o >>= k) := by
  subst ho
  refine ⟨Prog.sites_call.mpr ⟨List.append_nil _, fun r => ?_⟩, Prog.all_call.mpr fun r => ?_⟩
  · refine Prog.Sites.imp (hk r).sites fun tr o' htr => ?_
    rw [owed_cons, paid_cons, htr, List.append_assoc]
  · refine Prog.All.imp (hk r).paths fun tr _ htr => ?_
    rw [owed_cons, paid_cons, htr]

theorem Prompt.bind (hp : D.Prompt due p) (hf : ∀ a, D.Prompt [] (f a)) :
    D.Prompt due (p >>= f) := by
  refine ⟨Prog.sites_bind.mpr ⟨hp.sites, ?_⟩, Prog.all_bind.mpr ?_⟩
  · refine Prog.All.imp hp.paths fun tr a htr => Prog.Sites.imp (hf a).sites fun tr' o htr' => ?_
    rw [List.nil_append] at htr'
    rw [owed_append, paid_append, ← List.append_assoc, htr, htr', List.append_assoc]
  · refine Prog.All.imp hp.paths fun tr a htr => Prog.All.imp (hf a).paths fun tr' _ htr' => ?_
    rw [List.nil_append] at htr'
    rw [owed_append, paid_append, ← List.append_assoc, htr, htr']

/-- A procedure whose operations have nothing to do with duties. -/
theorem prompt_of_within (hp : p.Within fun o => (∀ r, D.owes ⟨o, r⟩ = none) ∧ D.pays o = none) :
    D.Prompt [] p := by
  induction p with
  | ret a => exact prompt_pure
  | call o k ih =>
    refine Prompt.call ?_ fun r => ?_
    · rw [hp.1.2]
      rfl
    · rw [hp.1.1 r]
      exact ih r (hp.2 r)

/-- **The rule for a loop.** -/
theorem Prompt.rounds {body : Prog E Bool} (hbody : D.Prompt [] body) (n : ℕ) :
    D.Prompt [] (Prog.rounds body n) := by
  have hstep : ∀ tr, D.owed tr = D.paid tr →
      body.All fun tr' _ => D.owed (tr ++ tr') = D.paid (tr ++ tr') := by
    intro tr htr
    refine Prog.All.imp hbody.paths fun tr' _ htr' => ?_
    rw [owed_append, paid_append, htr]
    exact congrArg (D.paid tr ++ ·) htr'
  refine ⟨Prog.sites_rounds (I := fun tr => D.owed tr = D.paid tr) rfl hstep fun tr htr => ?_,
    Prog.all_rounds (I := fun tr => D.owed tr = D.paid tr) rfl hstep⟩
  refine Prog.Sites.imp hbody.sites fun tr' o htr' => ?_
  rw [List.nil_append] at htr' ⊢
  rw [owed_append, paid_append, htr, htr', List.append_assoc]

end Duties
