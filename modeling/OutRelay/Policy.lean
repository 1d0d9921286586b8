import OutRelay.FirstMatch
import OutRelay.GoMap
import OutRelay.GoString

/-!
# Policy rules and their snapshot

Package `policy` decides whether a caller may open a stream to a target. A
rule names callers, targets and methods by glob patterns and carries a
decision; a query is answered by the first rule that matches it and has not
expired, and denied where there is none.

The relay does not search the list of rules. It indexes them into a
`Snapshot`: the rules whose target pattern has no `*` in buckets by target,
the others in one list, searched when the bucket has no match. `Rule` and
`Snapshot` are the source's types, `buildSnapshot`, `matchFirst` and
`Snapshot.decide` its functions. `decide_buildSnapshot` reads the index as a
search of the list in two tiers, in the order of the list.
-/

/-- `Decision`. -/
inductive Decision
  | deny
  | allow
  deriving DecidableEq

/-- `P2PMode`. -/
inductive P2PMode
  | allowed
  | forbidden
  | required
  deriving DecidableEq

/-- `RelayMode`. -/
inductive RelayMode
  | splice
  | forward
  deriving DecidableEq

/-- `CombineP2PModes`. -/
def combineP2PModes (a b : P2PMode) : P2PMode :=
  if a = .forbidden ∨ b = .forbidden then .forbidden
  else if a = .required ∨ b = .required then .required
  else .allowed

/-- `Rule`: one compiled policy rule. An empty method pattern matches every
method, and an expiry that is not positive means never. -/
structure Rule where
  id : GoString
  callerPattern : GoString
  targetPattern : GoString
  methodPattern : GoString
  decision : Decision
  expiresUnixMs : Int
  p2pMode : P2PMode
  relayMode : RelayMode
  deriving DecidableEq

/-- `Result`: the decision, the reason, and the modes of the rule. -/
structure Result where
  decision : Decision
  reason : GoString
  p2pMode : P2PMode
  relayMode : RelayMode
  deriving DecidableEq

/-- The arguments of `Snapshot.Decide`: who asks for which target and method,
and when. -/
structure Query where
  caller : GoString
  target : GoString
  method : GoString
  nowMs : Int

/-! ## Globs -/

/-- The byte `*`. -/
def star : UInt8 := 42

/-- The loop of `matchGlob` over the pieces after the first, and its final
test: each middle piece is searched for in what is left of the string, and the
last one ends it. -/
def matchPieces (s : GoString) : List GoString → Bool
  | [] => true
  | [last] => s.hasSuffix last
  | p :: ps =>
    match s.index p with
    | none => false
    | some idx => matchPieces (s.drop (idx + p.length)) ps

/-- `matchGlob`: `*` matches any run of bytes, every other byte itself. -/
def matchGlob (pattern s : GoString) : Bool :=
  if pattern = [] then s = []
  else if ¬ star ∈ pattern then pattern = s
  else if pattern = [star] then true
  else match pattern.split star with
    | [] => false
    | first :: rest =>
      if s.hasPrefix first then matchPieces (s.drop first.length) rest else false

/-- Without a `*`, a glob is an equality. -/
theorem matchGlob_of_not_mem {pattern : GoString} (h : star ∉ pattern) (s : GoString) :
    matchGlob pattern s = true ↔ pattern = s := by
  unfold matchGlob
  by_cases hp : pattern = []
  · rw [if_pos hp, hp]
    simp [eq_comm]
  · rw [if_neg hp, if_pos h]
    simp

/-! ## Rules -/

namespace Rule

/-- The rule names a target by pattern: `strings.ContainsRune(…, '*')`. -/
def isWildcard (r : Rule) : Bool := star ∈ r.targetPattern

/-- The rule has not expired, and its patterns match. -/
def Matches (r : Rule) (q : Query) : Prop :=
  ¬ (0 < r.expiresUnixMs ∧ r.expiresUnixMs ≤ q.nowMs)
    ∧ matchGlob r.callerPattern q.caller ∧ matchGlob r.targetPattern q.target
    ∧ (r.methodPattern = [] ∨ matchGlob r.methodPattern q.method)

instance (r : Rule) (q : Query) : Decidable (r.Matches q) :=
  inferInstanceAs (Decidable (_ ∧ _ ∧ _ ∧ _))

/-- A rule that names its target matches queries for that target only. -/
theorem Matches.target_eq {r : Rule} {q : Query} (h : r.Matches q)
    (hw : r.isWildcard = false) : r.targetPattern = q.target :=
  (matchGlob_of_not_mem (by simpa [isWildcard] using hw) q.target).mp h.2.2.1

end Rule

/-- `matchFirst`: the loop over the rules of one list, with its four reasons
to go on. -/
def matchFirst : List Rule → Query → Option Rule
  | [], _ => none
  | r :: rs, q =>
    if 0 < r.expiresUnixMs ∧ r.expiresUnixMs ≤ q.nowMs then matchFirst rs q
    else if ¬ matchGlob r.callerPattern q.caller then matchFirst rs q
    else if ¬ matchGlob r.targetPattern q.target then matchFirst rs q
    else if r.methodPattern ≠ [] ∧ ¬ matchGlob r.methodPattern q.method then matchFirst rs q
    else some r

/-- **`matchFirst` finds the first rule that matches.** -/
theorem matchFirst_eq_find? (rs : List Rule) (q : Query) :
    matchFirst rs q = rs.find? (fun r => r.Matches q) := by
  induction rs with
  | nil => rfl
  | cons r rs ih =>
    unfold matchFirst
    rw [List.find?_cons, ih]
    by_cases hm : r.Matches q
    · have hmeth : ¬ (r.methodPattern ≠ [] ∧ ¬ matchGlob r.methodPattern q.method) :=
        fun h => hm.2.2.2.elim h.1 h.2
      rw [if_neg hm.1, if_neg (not_not.mpr hm.2.1), if_neg (not_not.mpr hm.2.2.1), if_neg hmeth,
        decide_eq_true hm]
    · rw [decide_eq_false hm]
      split_ifs with h₁ h₂ h₃ h₄
      · rfl
      · rfl
      · refine absurd ⟨h₁, h₂, h₃, ?_⟩ hm
        by_cases hempty : r.methodPattern = []
        · exact Or.inl hempty
        · exact Or.inr (not_not.mp fun h => h₄ ⟨hempty, h⟩)
      · rfl
      · rfl

/-! ## The snapshot -/

/-- `Snapshot`: the rules, indexed. -/
structure Snapshot where
  byTarget : GoMap GoString (List Rule)
  wildcard : List Rule

/-- The result a matching rule gives, and the one no rule gives. -/
def Result.ofRule : Option Rule → Result
  | some r => ⟨r.decision, r.id, r.p2pMode, r.relayMode⟩
  | none => ⟨.deny, go "no matching rule", .allowed, .splice⟩

/-- `Snapshot.Decide`; the snapshot is a pointer, which may be nil. -/
def Snapshot.decide (s : Option Snapshot) (q : Query) : Result :=
  match s with
  | none => ⟨.deny, go "no policy snapshot", .allowed, .splice⟩
  | some s =>
    match (s.byTarget.get q.target).bind (fun rs => matchFirst rs q) with
    | some r => Result.ofRule (some r)
    | none => Result.ofRule (matchFirst s.wildcard q)

/-- One round of the loop of `BuildSnapshot`. -/
def Snapshot.insert (s : Snapshot) (r : Rule) : Snapshot :=
  if r.isWildcard then { s with wildcard := s.wildcard ++ [r] }
  else { s with
    byTarget := s.byTarget.set r.targetPattern
      ((s.byTarget.get r.targetPattern).getD [] ++ [r]) }

/-- `BuildSnapshot`. -/
def buildSnapshot (rules : List Rule) : Snapshot := rules.foldl Snapshot.insert ⟨∅, []⟩

/-- The bucket of a target; a target without one has no rules. -/
def Snapshot.bucket (s : Snapshot) (target : GoString) : List Rule :=
  (s.byTarget.get target).getD []

theorem Snapshot.decide_eq_bucket (s : Snapshot) (q : Query) :
    Snapshot.decide (some s) q
      = Result.ofRule ((matchFirst (s.bucket q.target) q).or (matchFirst s.wildcard q)) := by
  unfold Snapshot.bucket
  show (match (s.byTarget.get q.target).bind (fun rs => matchFirst rs q) with
    | some r => Result.ofRule (some r)
    | none => Result.ofRule (matchFirst s.wildcard q)) = _
  cases s.byTarget.get q.target with
  | none => rfl
  | some rs =>
    rw [Option.bind_some, Option.getD_some]
    cases matchFirst rs q <;> rfl

/-- The loop of `BuildSnapshot` appends each rule to the list it belongs to. -/
theorem buildSnapshot_loop (rules : List Rule) (s : Snapshot) (target : GoString) :
    (rules.foldl Snapshot.insert s).bucket target
        = s.bucket target
          ++ rules.filter (fun r => !r.isWildcard && decide (r.targetPattern = target))
      ∧ (rules.foldl Snapshot.insert s).wildcard
        = s.wildcard ++ rules.filter Rule.isWildcard := by
  induction rules generalizing s with
  | nil => simp
  | cons r rules ih =>
    rw [List.foldl_cons, (ih (s.insert r)).1, (ih (s.insert r)).2]
    cases hw : r.isWildcard with
    | true => simp [Snapshot.insert, Snapshot.bucket, hw]
    | false =>
      have hins : s.insert r = { s with
          byTarget := s.byTarget.set r.targetPattern (s.bucket r.targetPattern ++ [r]) } := by
        simp [Snapshot.insert, Snapshot.bucket, hw]
      by_cases ht : r.targetPattern = target
      · subst ht
        simp [hins, Snapshot.bucket, hw]
      · have hget := GoMap.get_set_of_ne s.byTarget (s.bucket r.targetPattern ++ [r])
          (Ne.symm ht)
        unfold Snapshot.bucket at hget
        simp [hins, Snapshot.bucket, hw, ht, hget]

/-- A rule that names its target, and matches. -/
def Rule.decidesExactly (q : Query) (r : Rule) : Bool := !r.isWildcard && decide (r.Matches q)

/-- A rule that gives its target by pattern, and matches. -/
def Rule.decidesByPattern (q : Query) (r : Rule) : Bool := r.isWildcard && decide (r.Matches q)

/-- **The indexed decision is a search in two tiers, in the order of the
rules.** -/
theorem decide_buildSnapshot (rules : List Rule) (q : Query) :
    Snapshot.decide (some (buildSnapshot rules)) q
      = Result.ofRule (FirstMatch.firstMatch (Rule.decidesExactly q) (Rule.decidesByPattern q)
          rules) := by
  obtain ⟨hbucket, hwild⟩ := buildSnapshot_loop rules ⟨∅, []⟩ q.target
  have hempty : (⟨∅, []⟩ : Snapshot).bucket q.target = [] := by
    rw [Snapshot.bucket, GoMap.get_empty, Option.getD_none]
  rw [hempty, List.nil_append] at hbucket
  rw [List.nil_append] at hwild
  rw [Snapshot.decide_eq_bucket]
  unfold buildSnapshot FirstMatch.firstMatch
  rw [hbucket, hwild, matchFirst_eq_find?, matchFirst_eq_find?, List.find?_filter,
    List.find?_filter]
  congr 3
  · -- a rule that matches without a pattern is in the bucket of its target
    funext r
    unfold Rule.decidesExactly
    cases hw : r.isWildcard with
    | true => simp
    | false =>
      by_cases hm : r.Matches q
      · simp [hm, hm.target_eq hw]
      · simp [hm]
  · funext r
    unfold Rule.decidesByPattern
    simp
