import OutRelay.Policy

/-!
# The policy engine

The engine keeps the rules in a map from id to rule, its working set, and
publishes a snapshot of them. An update changes the working set under a lock
(`Apply`), and builds the next snapshot from it by ranging over the map – in
an order Go leaves open, whatever the order in which the controller sent the
rules.

A snapshot answers with the first rule that matches, so its order matters.
`set_decide_iff` says for which queries it does not: when the rules that can
win agree. Where two of them differ, the engine answers as the runtime
happens to range.
-/

/-- `Engine`: the published snapshot and the working set. -/
structure Engine where
  cur : Option Snapshot
  rules : GoMap GoString Rule

/-- `NewEngine`. -/
def newEngine : Engine := ⟨some (buildSnapshot []), ∅⟩

/-- What `Engine.Set` does to the working set: delete every key, ranging in the
order `cleared`, and then assign the new rules. -/
def setRules (rules : List Rule) (cleared : List (GoString × Rule))
    (m : GoMap GoString Rule) : GoMap GoString Rule :=
  (m.delAll (cleared.map Prod.fst)).setAll Rule.id rules

namespace Engine

/-- `Engine.Decide`. -/
def decide (e : Engine) (q : Query) : Result := Snapshot.decide e.cur q

/-- `Engine.Apply`: mutate the working set, and publish a snapshot of it built
by ranging over it in the order `order`. -/
def apply (e : Engine) (mutate : GoMap GoString Rule → GoMap GoString Rule)
    (order : List (GoString × Rule)) : Engine :=
  ⟨some (buildSnapshot (order.map Prod.snd)), mutate e.rules⟩

/-- `Engine.Set`. -/
def set (e : Engine) (rules : List Rule) (cleared order : List (GoString × Rule)) : Engine :=
  e.apply (setRules rules cleared) order

/-- `Engine.Add`. -/
def add (e : Engine) (r : Rule) (order : List (GoString × Rule)) : Engine :=
  e.apply (fun m => m.set r.id r) order

/-- `Engine.Remove`. -/
def remove (e : Engine) (id : GoString) (order : List (GoString × Rule)) : Engine :=
  e.apply (fun m => m.del id) order

end Engine

/-! ## The order of the rules -/

/-- **The orders in which `Set` may build its snapshot are the orders of the
rules**, when their ids differ. -/
theorem setRules_rangeOrder_iff {rules : List Rule} (hids : (rules.map Rule.id).Nodup)
    {m : GoMap GoString Rule} {cleared order : List (GoString × Rule)}
    (hclear : m.RangeOrder cleared) :
    (setRules rules cleared m).RangeOrder order
      ↔ order.Perm (rules.map (fun r => (r.id, r))) := by
  unfold setRules
  rw [GoMap.delAll_rangeOrder hclear]
  exact GoMap.rangeOrder_setAll_iff hids

/-- The rules that can win a query: the matching ones that name the target, or
the matching ones that give it by pattern where there is none. -/
def decidingRules (rules : List Rule) (q : Query) : List Rule :=
  FirstMatch.deciding (Rule.decidesExactly q) (Rule.decidesByPattern q) rules

/-- **What an observer of `Set` sees whatever the order.** An observation `f` of
the result is the one `BuildSnapshot` gives on the rules as they were sent, in
every order the engine may range, exactly when it does not tell apart the rules
that can win. -/
theorem set_observe_iff {β : Type} (f : Result → β) (e : Engine) {rules : List Rule}
    (hids : (rules.map Rule.id).Nodup) (q : Query) :
    (∀ cleared order, e.rules.RangeOrder cleared →
      (setRules rules cleared e.rules).RangeOrder order →
      f ((e.set rules cleared order).decide q)
        = f (Snapshot.decide (some (buildSnapshot rules)) q))
    ↔ ∀ r ∈ decidingRules rules q, ∀ r' ∈ decidingRules rules q,
        f (Result.ofRule (some r)) = f (Result.ofRule (some r')) := by
  unfold decidingRules
  rw [← FirstMatch.forall_perm_firstMatch_iff (fun o => f (Result.ofRule o)) rules]
  obtain ⟨cleared, hclear⟩ := GoMap.exists_rangeOrder e.rules
  constructor
  · intro h l hperm
    have horder : (setRules rules cleared e.rules).RangeOrder (l.map (fun r => (r.id, r))) :=
      (setRules_rangeOrder_iff hids hclear).mpr (hperm.map _)
    have hset := h cleared _ hclear horder
    have hrules : (l.map (fun r : Rule => (r.id, r))).map Prod.snd = l := by
      rw [List.map_map]
      exact List.map_id l
    rw [← decide_buildSnapshot, ← decide_buildSnapshot, ← hset]
    show f (Snapshot.decide (some (buildSnapshot l)) q)
      = f (Snapshot.decide (some (buildSnapshot ((l.map (fun r => (r.id, r))).map Prod.snd))) q)
    rw [hrules]
  · intro h cleared order hclear horder
    have hperm := ((setRules_rangeOrder_iff hids hclear).mp horder).map Prod.snd
    rw [List.map_map] at hperm
    have hsame := h (order.map Prod.snd) (hperm.trans (List.Perm.of_eq (List.map_id rules)))
    show f (Snapshot.decide (some (buildSnapshot (order.map Prod.snd))) q) = _
    rw [decide_buildSnapshot, decide_buildSnapshot]
    exact hsame

/-- **When `Set` keeps the first match.** On rules with distinct ids, the result
of a query after `Set` is the one `BuildSnapshot` gives on the rules in the order
they were sent, whatever order the map is ranged in, exactly when at most one
rule can win the query; and the decision alone is, exactly when the rules that
can win agree on it. -/
theorem set_decide_iff (e : Engine) {rules : List Rule} (hids : (rules.map Rule.id).Nodup)
    (q : Query) :
    ((∀ cleared order, e.rules.RangeOrder cleared →
      (setRules rules cleared e.rules).RangeOrder order →
      (e.set rules cleared order).decide q = Snapshot.decide (some (buildSnapshot rules)) q)
    ↔ ∀ r ∈ decidingRules rules q, ∀ r' ∈ decidingRules rules q, r = r')
    ∧ ((∀ cleared order, e.rules.RangeOrder cleared →
      (setRules rules cleared e.rules).RangeOrder order →
      ((e.set rules cleared order).decide q).decision
        = (Snapshot.decide (some (buildSnapshot rules)) q).decision)
    ↔ ∀ r ∈ decidingRules rules q, ∀ r' ∈ decidingRules rules q,
        r.decision = r'.decision) := by
  refine ⟨(set_observe_iff id e hids q).trans ?_, set_observe_iff Result.decision e hids q⟩
  -- the reason names the rule
  refine forall₄_congr (fun r hr r' hr' => ⟨fun h => ?_, fun h => h ▸ rfl⟩)
  exact List.inj_on_of_nodup_map hids (FirstMatch.mem_of_mem_deciding hr)
    (FirstMatch.mem_of_mem_deciding hr') (congrArg Result.reason h)

/-- A rule for every caller and method that never expires. -/
def targetRule (id target : GoString) (decision : Decision) : Rule :=
  ⟨id, [star], target, [], decision, 0, .allowed, .splice⟩

/-- A deny for one caller before an allow for all, and the query of that
caller. -/
def denyThenAllow : List Rule :=
  [{ targetRule (go "specific-deny") (go "svc-payments") .deny with
      callerPattern := go "svc-evil" },
    targetRule (go "broad-allow") (go "svc-payments") .allow]

def evilQuery : Query := ⟨go "svc-evil", go "svc-payments", [], 0⟩

/-- Ranging over the working set in the other order lets the denied caller
in. -/
theorem set_allows_denied_caller :
    ∃ order, (denyThenAllow.map Rule.id).Nodup
      ∧ (setRules denyThenAllow [] newEngine.rules).RangeOrder order
      ∧ ((newEngine.set denyThenAllow [] order).decide evilQuery).decision = .allow
      ∧ (Snapshot.decide (some (buildSnapshot denyThenAllow)) evilQuery).decision = .deny :=
  ⟨denyThenAllow.reverse.map (fun r => (r.id, r)), by decide, by decide, by decide, by decide⟩

/-- Another caller, for whom only the second rule can win, gets the result of the rules as
they were sent in that order, too. -/
theorem set_allows_other_caller :
    (newEngine.set denyThenAllow [] (denyThenAllow.reverse.map fun r => (r.id, r))).decide
        ⟨go "svc-orders", go "svc-payments", [], 0⟩
      = Snapshot.decide (some (buildSnapshot denyThenAllow))
        ⟨go "svc-orders", go "svc-payments", [], 0⟩ :=
  (set_decide_iff newEngine (by decide) ⟨go "svc-orders", go "svc-payments", [], 0⟩).1.mpr
    (by decide) [] _ (by decide) (by decide)
