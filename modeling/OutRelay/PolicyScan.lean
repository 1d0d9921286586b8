import OutRelay.Glob
import OutRelay.Policy

/-!
# What a decision means

A rule base has a plain meaning: go through the rules, those that name their
target before those that give it by pattern, and take the first one that
applies. A rule applies while it has not expired, to the callers, targets and
methods its patterns match as globs (`Rule.Applies`).

The relay does neither of the two things this says. `matchGlob` splits a
pattern and searches for the pieces from the left; it decides the glob relation
all the same (`matchGlob_iff`), because an occurrence further to the left leaves
at least as much for the pieces after it. And `Decide` looks only into the
bucket of the target before it falls through to the patterns. The rules it
passes over name other targets, so they do not apply (`decide_eq_scan`).
-/

/-! ## Globs -/

/-- **The loop of `matchGlob`** finds its pieces exactly where they can be
found. -/
theorem matchPieces_iff {ps : List GoString} (hne : ps ≠ []) (s : GoString) :
    matchPieces s ps = true ↔ Glob.Spread ps s := by
  induction ps generalizing s with
  | nil => exact absurd rfl hne
  | cons p ps ih =>
    cases ps with
    | nil =>
      show s.hasSuffix p = true ↔ ∃ w t, s = w ++ (p ++ t) ∧ t = []
      rw [GoString.hasSuffix_iff]
      constructor
      · rintro ⟨w, rfl⟩
        exact ⟨w, [], by rw [List.append_nil], rfl⟩
      · rintro ⟨w, t, rfl, rfl⟩
        exact ⟨w, by rw [List.append_nil]⟩
    | cons p' ps =>
      have hrest := ih (List.cons_ne_nil p' ps)
      unfold matchPieces
      cases hidx : s.index p with
      | none =>
        refine iff_of_false Bool.false_ne_true ?_
        rintro ⟨w, t, hs, -⟩
        exact GoString.of_index_eq_none hidx w t hs
      | some i =>
        obtain ⟨w, t, rfl, hw, hleft⟩ := GoString.of_index_eq_some hidx
        have hdrop : (w ++ (p ++ t)).drop (i + p.length) = t := by
          rw [← List.append_assoc, ← hw, ← List.length_append, List.drop_left]
        dsimp only
        rw [hdrop, hrest]
        constructor
        · exact fun h => ⟨w, t, rfl, h⟩
        · -- any other occurrence is further right, and what follows it is shorter
          rintro ⟨w', t', heq, h⟩
          have hlen := hleft w' t' heq
          rw [← List.append_assoc, ← List.append_assoc] at heq
          rcases List.append_eq_append_iff.mp heq with ⟨v, -, rfl⟩ | ⟨v, hv, rfl⟩
          · exact h.append_left (List.cons_ne_nil p' ps) v
          · have hv0 : v = [] := by
              have hcount := congrArg List.length hv
              simp only [List.length_append] at hcount
              exact List.length_eq_zero_iff.mp (by omega)
            rw [hv0] at h
            exact h

/-- `matchGlob` decides the glob relation. -/
theorem matchGlob_iff (pattern s : GoString) :
    matchGlob pattern s = true ↔ Glob.Matches star pattern s := by
  unfold matchGlob
  by_cases hnil : pattern = []
  · rw [if_pos hnil, hnil, Glob.matches_nil_iff, decide_eq_true_iff]
  rw [if_neg hnil]
  by_cases hstar : star ∈ pattern
  · rw [if_neg (not_not.mpr hstar)]
    by_cases hone : pattern = [star]
    · rw [if_pos hone, hone]
      exact iff_of_true rfl (Glob.matches_star s)
    rw [if_neg hone]
    show (match pattern.splitOn star with
      | [] => false
      | first :: rest =>
        if s.hasPrefix first then matchPieces (s.drop first.length) rest else false) = true ↔ _
    cases hsplit : pattern.splitOn star with
    | nil => exact absurd hsplit (List.splitOn_ne_nil star pattern)
    | cons first rest =>
      have hloop := matchPieces_iff (Glob.rest_ne_nil_of_mem hsplit hstar)
      dsimp only
      rw [Glob.matches_iff_spread hsplit]
      by_cases hfirst : s.hasPrefix first = true
      · obtain ⟨t, rfl⟩ := GoString.hasPrefix_iff.mp hfirst
        rw [if_pos hfirst, List.drop_left, hloop]
        constructor
        · exact fun h => ⟨t, rfl, h⟩
        · rintro ⟨t', heq, h⟩
          rwa [List.append_cancel_left heq]
      · rw [if_neg hfirst]
        refine iff_of_false Bool.false_ne_true ?_
        rintro ⟨t, rfl, -⟩
        exact hfirst (GoString.hasPrefix_iff.mpr ⟨t, rfl⟩)
  · rw [if_pos hstar, Glob.matches_of_not_mem hstar, decide_eq_true_iff]

/-- **`matchGlob` accepts the strings that come out of the pattern** when each `*`
is replaced by some string, and no others. -/
theorem matchGlob_iff_fill (pattern s : GoString) :
    matchGlob pattern s = true
      ↔ ∃ ws : List GoString, ws.length = pattern.count star ∧ s = Glob.fill star pattern ws :=
  (matchGlob_iff pattern s).trans (Glob.matches_iff_fill pattern s)

/-! ## Rules -/

namespace Rule

/-- **The rule applies to a query**: it has not expired, and its patterns match
as globs. -/
structure Applies (r : Rule) (q : Query) : Prop where
  unexpired : r.expiresUnixMs ≤ 0 ∨ q.nowMs < r.expiresUnixMs
  caller : Glob.Matches star r.callerPattern q.caller
  target : Glob.Matches star r.targetPattern q.target
  method : Glob.Matches star r.methodPattern q.method ∨ r.methodPattern = []

theorem matches_iff_applies (r : Rule) (q : Query) : r.Matches q ↔ r.Applies q := by
  unfold Matches
  rw [matchGlob_iff, matchGlob_iff, matchGlob_iff, not_and_or, not_lt, not_le]
  constructor
  · rintro ⟨hexp, hcaller, htarget, hmethod⟩
    exact ⟨hexp, hcaller, htarget, hmethod.symm⟩
  · intro h
    exact ⟨h.unexpired, h.caller, h.target, h.method.symm⟩

instance (r : Rule) (q : Query) : Decidable (r.Applies q) :=
  decidable_of_iff (r.Matches q) (r.matches_iff_applies q)

end Rule

/-- **The order of the scan**: the rules that name their target, in the order they
were given, and then the others. -/
def scanOrder (rules : List Rule) : List Rule :=
  rules.filter (fun r : Rule => star ∉ r.targetPattern)
    ++ rules.filter (fun r : Rule => star ∈ r.targetPattern)

/-- **The plain scan**: the result of the first rule that applies, and `Deny` where
there is none. -/
def scan (q : Query) : List Rule → Result
  | [] => ⟨.deny, go "no matching rule", .allowed, .splice⟩
  | r :: rules =>
    if r.Applies q then ⟨r.decision, r.id, r.p2pMode, r.relayMode⟩ else scan q rules

theorem scan_eq_find? (q : Query) (rules : List Rule) :
    scan q rules = Result.ofRule (rules.find? (fun r => r.Applies q)) := by
  induction rules with
  | nil => rfl
  | cons r rules ih =>
    unfold scan
    rw [List.find?_cons, ih]
    by_cases h : r.Applies q
    · rw [if_pos h, decide_eq_true h]
      rfl
    · rw [if_neg h, decide_eq_false h]

/-- What allows a query is a rule that applies, with none before it that does. -/
theorem exists_of_scan_allow {q : Query} {rules : List Rule}
    (h : (scan q rules).decision = .allow) :
    ∃ pre r post, rules = pre ++ r :: post ∧ r.decision = .allow ∧ r.Applies q
      ∧ ∀ r' ∈ pre, ¬ r'.Applies q := by
  induction rules with
  | nil => cases h
  | cons r rules ih =>
    unfold scan at h
    split_ifs at h with happ
    · exact ⟨[], r, rules, rfl, h, happ, fun _ hr => absurd hr List.not_mem_nil⟩
    · obtain ⟨pre, r', post, rfl, hallow, happ', hpre⟩ := ih h
      exact ⟨r :: pre, r', post, rfl, hallow, happ', List.forall_mem_cons.mpr ⟨happ, hpre⟩⟩

/-- **The indexed decision is the plain scan**; so a query is allowed only by an
unexpired `Allow` rule that matches it, with no matching unexpired rule before
it. -/
theorem decide_eq_scan (rules : List Rule) (q : Query) :
    Snapshot.decide (some (buildSnapshot rules)) q = scan q (scanOrder rules)
      ∧ ((Snapshot.decide (some (buildSnapshot rules)) q).decision = .allow →
        ∃ pre r post, scanOrder rules = pre ++ r :: post ∧ r.decision = .allow ∧ r.Applies q
          ∧ ∀ r' ∈ pre, ¬ r'.Applies q) := by
  have heq : Snapshot.decide (some (buildSnapshot rules)) q = scan q (scanOrder rules) := by
    rw [decide_buildSnapshot, scan_eq_find?, scanOrder, List.find?_append, List.find?_filter,
      List.find?_filter]
    unfold FirstMatch.firstMatch
    congr 3
    · funext r
      simp [Rule.decidesExactly, Rule.isWildcard, r.matches_iff_applies q]
    · funext r
      simp [Rule.decidesByPattern, Rule.isWildcard, r.matches_iff_applies q]
  refine ⟨heq, fun h => ?_⟩
  rw [heq] at h
  exact exists_of_scan_allow h
