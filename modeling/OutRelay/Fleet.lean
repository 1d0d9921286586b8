import Mathlib.Data.List.Sort
import OutRelay.GoString
import OutRelay.Run

/-!
# The fleet and the successor list

A relay hands its agents a list of the relays to fall back to. It derives the
list from the fleet the controller reports (`successors`): every relay but
itself, those of its own region first, each group by id. As long as the ids
differ that is one list, however the controller orders the fleet and though the
sort is not stable, and the relays of a region agree on it
(`successors_canonical`).

The list is seeded from the answer to the first `UpsertRelay`, and a heartbeat
repeats the call and reports a list that has changed.

The heartbeat compares with the list it reported last, and a fresh heartbeat has
reported none. To it a fleet without peers is nothing new, whatever the server was
seeded with: the list it should replace stays (`tracks_iff`). A heartbeat that
has once seen a peer is in step with the server, and stays so.
-/

/-! ## Sorting -/

/-- **`slices.SortFunc`** for one comparison. It is not stable: entries that
compare equal come in an order of its own. -/
structure SortFunc (α : Type) (cmp : α → α → Int) where
  sort : List α → List α
  perm : ∀ l, (sort l).Perm l
  sorted : ∀ l, (sort l).Pairwise (fun a b => cmp a b ≤ 0)

/-- **Entries that compare equal only to themselves have one order**, whatever the
sort and the order they come in. -/
theorem SortFunc.sort_eq_of_perm {α : Type} {cmp : α → α → Int} (f g : SortFunc α cmp)
    {l l' : List α} (hperm : l.Perm l')
    (hsep : ∀ a ∈ l, ∀ b ∈ l, cmp a b ≤ 0 → cmp b a ≤ 0 → a = b) : f.sort l = g.sort l' := by
  have hall : (f.sort l).Perm (g.sort l') := (f.perm l).trans (hperm.trans (g.perm l').symm)
  refine hall.eq_of_pairwise (fun a b ha hb => ?_) (f.sorted l) (g.sorted l')
  exact hsep a ((f.perm l).mem_iff.mp ha) b (hperm.mem_iff.mpr ((g.perm l').mem_iff.mp hb))

/-! ## The list of successors -/

/-- `pb.RelayInstance`. -/
structure RelayInstance where
  id : GoString
  region : GoString
  endpoint : GoString
  deriving DecidableEq

/-- The comparison of `Successors`. -/
def byID (a b : RelayInstance) : Int :=
  if a.id < b.id then -1 else if b.id < a.id then 1 else 0

theorem byID_nonpos_iff (a b : RelayInstance) : byID a b ≤ 0 ↔ a.id ≤ b.id := by
  unfold byID
  split_ifs with hlt hgt
  · exact iff_of_true (by decide) (List.lt_asymm hlt)
  · exact iff_of_false (by decide) (fun hle => hle hgt)
  · exact iff_of_true (by decide) hgt

/-- A sort by id, to compute with. -/
def sortByID : SortFunc RelayInstance byID where
  sort := List.insertionSort (fun a b => byID a b ≤ 0)
  perm := List.perm_insertionSort _
  sorted := by
    have htotal : Std.Total (fun a b : RelayInstance => byID a b ≤ 0) :=
      ⟨fun a b => by
        rw [byID_nonpos_iff, byID_nonpos_iff]
        exact List.le_total a.id b.id⟩
    have htrans : IsTrans RelayInstance (fun a b => byID a b ≤ 0) :=
      ⟨fun a b c => by
        rw [byID_nonpos_iff, byID_nonpos_iff, byID_nonpos_iff]
        exact List.le_trans⟩
    exact List.pairwise_insertionSort _

/-- One round of the loop of `Successors`. -/
def successorRound (selfID region : GoString)
    (acc : List RelayInstance × List RelayInstance) (r : RelayInstance) :
    List RelayInstance × List RelayInstance :=
  if r.id = selfID ∨ r.endpoint = [] then acc
  else if r.region = region then (acc.1 ++ [r], acc.2)
  else (acc.1, acc.2 ++ [r])

/-- `Successors`. -/
def successors (sorter : SortFunc RelayInstance byID) (selfID region : GoString)
    (fleet : List RelayInstance) : List GoString :=
  let groups := fleet.foldl (successorRound selfID region) ([], [])
  (sorter.sort groups.1).map RelayInstance.endpoint
    ++ (sorter.sort groups.2).map RelayInstance.endpoint

/-- Another relay, with an endpoint to reach it. -/
def RelayInstance.IsPeer (selfID : GoString) (r : RelayInstance) : Prop :=
  r.id ≠ selfID ∧ r.endpoint ≠ []

instance (selfID : GoString) (r : RelayInstance) : Decidable (r.IsPeer selfID) :=
  inferInstanceAs (Decidable (_ ∧ _))

section Successors

variable (sorter : SortFunc RelayInstance byID) (selfID region : GoString)
variable (fleet : List RelayInstance)

/-- The peers of one region, and those of the others. -/
def sameRegion : List RelayInstance :=
  fleet.filter (fun r => r.IsPeer selfID ∧ r.region = region)

def otherRegion : List RelayInstance :=
  fleet.filter (fun r => r.IsPeer selfID ∧ r.region ≠ region)

theorem foldl_successorRound (acc : List RelayInstance × List RelayInstance) :
    fleet.foldl (successorRound selfID region) acc
      = (acc.1 ++ sameRegion selfID region fleet, acc.2 ++ otherRegion selfID region fleet) := by
  unfold sameRegion otherRegion
  induction fleet generalizing acc with
  | nil => simp
  | cons r fleet ih =>
    rw [List.foldl_cons, ih]
    unfold successorRound
    by_cases hpeer : r.IsPeer selfID
    · rw [if_neg (not_or.mpr hpeer)]
      by_cases hregion : r.region = region <;> simp [hpeer, hregion]
    · rw [if_pos (by simpa only [RelayInstance.IsPeer, not_and_or, not_not] using hpeer)]
      simp [hpeer]

/-- **What `Successors` lists**: the peers of the region by id, then the others. -/
theorem successors_eq :
    successors sorter selfID region fleet
      = (sorter.sort (sameRegion selfID region fleet)).map RelayInstance.endpoint
        ++ (sorter.sort (otherRegion selfID region fleet)).map RelayInstance.endpoint := by
  unfold successors
  rw [foldl_successorRound, List.nil_append, List.nil_append]

/-- The fleet has a relay to fall back to. -/
def HasPeer : Prop := ∃ r ∈ fleet, r.IsPeer selfID

instance : Decidable (HasPeer selfID fleet) :=
  inferInstanceAs (Decidable (∃ r ∈ fleet, r.IsPeer selfID))

theorem successors_ne_nil_iff :
    successors sorter selfID region fleet ≠ [] ↔ HasPeer selfID fleet := by
  have hsame := (sorter.perm (sameRegion selfID region fleet)).length_eq
  have hother := (sorter.perm (otherRegion selfID region fleet)).length_eq
  rw [successors_eq, ne_eq, ← List.length_eq_zero_iff, List.length_append, List.length_map,
    List.length_map, hsame, hother, ← List.length_append, List.length_eq_zero_iff]
  unfold sameRegion otherRegion HasPeer
  simp only [List.append_eq_nil_iff, List.filter_eq_nil_iff, decide_eq_true_iff]
  constructor
  · intro h
    by_contra hnone
    exact h ⟨fun r hr hp => hnone ⟨r, hr, hp.1⟩, fun r hr hp => hnone ⟨r, hr, hp.1⟩⟩
  · rintro ⟨r, hr, hpeer⟩ ⟨hsame, hother⟩
    by_cases hregion : r.region = region
    · exact hsame r hr ⟨hpeer, hregion⟩
    · exact hother r hr ⟨hpeer, hregion⟩

end Successors

/-- **One fleet, one list.** When the ids of a fleet differ, neither the order in
which the controller lists it nor the sort matters. -/
theorem successors_eq_of_perm (f g : SortFunc RelayInstance byID) (selfID region : GoString)
    {fleet fleet' : List RelayInstance} (hperm : fleet.Perm fleet')
    (hids : (fleet.map RelayInstance.id).Nodup) :
    successors f selfID region fleet = successors g selfID region fleet' := by
  have hsort : ∀ p : RelayInstance → Bool,
      f.sort (fleet.filter p) = g.sort (fleet'.filter p) := by
    intro p
    refine f.sort_eq_of_perm g (hperm.filter p) (fun a ha b hb hab hba => ?_)
    rw [byID_nonpos_iff] at hab hba
    exact List.inj_on_of_nodup_map hids (List.mem_of_mem_filter ha) (List.mem_of_mem_filter hb)
      (List.le_antisymm hab hba)
  rw [successors_eq, successors_eq]
  exact congrArg₂
    (fun a b => List.map RelayInstance.endpoint a ++ List.map RelayInstance.endpoint b)
    (hsort _) (hsort _)

/-! ## The canonical order -/

/-- A sort by id of relays with distinct ids is strict. -/
theorem pairwise_lt_sort (sorter : SortFunc RelayInstance byID) {l : List RelayInstance}
    (hids : (l.map RelayInstance.id).Nodup) :
    (sorter.sort l).Pairwise (fun a b => a.id < b.id) := by
  have hnodup : ((sorter.sort l).map RelayInstance.id).Nodup :=
    (((sorter.perm l).map _).nodup_iff).mpr hids
  have hne : (sorter.sort l).Pairwise (fun a b => a.id ≠ b.id) := List.pairwise_map.mp hnodup
  refine ((sorter.sorted l).and hne).imp fun {a b} h => ?_
  by_contra hlt
  exact h.2 (List.le_antisymm ((byID_nonpos_iff a b).mp h.1) hlt)

/-- The two groups together are the peers. -/
theorem sameRegion_append_otherRegion_perm (selfID region : GoString)
    (fleet : List RelayInstance) :
    (sameRegion selfID region fleet ++ otherRegion selfID region fleet).Perm
      (fleet.filter (fun r => r.IsPeer selfID)) := by
  have hsame : sameRegion selfID region fleet
      = (fleet.filter (fun r => r.IsPeer selfID)).filter (fun r => r.region = region) := by
    unfold sameRegion
    rw [List.filter_filter]
    congr 1
    funext r
    simp [and_comm]
  have hother : otherRegion selfID region fleet
      = (fleet.filter (fun r => r.IsPeer selfID)).filter
        (fun r => !decide (r.region = region)) := by
    unfold otherRegion
    rw [List.filter_filter]
    congr 1
    funext r
    simp [and_comm]
  rw [hsame, hother]
  exact List.filter_append_perm _ _

/-- **Two relays of a region leave each other out alike**: without `q` the peers
of `p` are what without `p` the peers of `q` are. -/
theorem filter_peers_comm {fleet : List RelayInstance}
    (hids : (fleet.map RelayInstance.id).Nodup) {p q : RelayInstance} (hp : p ∈ fleet)
    (hq : q ∈ fleet) (c : RelayInstance → Bool) :
    (fleet.filter (fun r => r ≠ q)).filter (fun r => r.IsPeer p.id ∧ c r = true)
      = (fleet.filter (fun r => r ≠ p)).filter (fun r => r.IsPeer q.id ∧ c r = true) := by
  have hid : ∀ {a b : RelayInstance}, a ∈ fleet → b ∈ fleet → (a.id = b.id ↔ a = b) :=
    fun ha hb => ⟨List.inj_on_of_nodup_map hids ha hb, congrArg RelayInstance.id⟩
  rw [List.filter_filter, List.filter_filter]
  refine List.filter_congr fun r hr => ?_
  rw [Bool.eq_iff_iff]
  simp only [Bool.and_eq_true, decide_eq_true_iff, RelayInstance.IsPeer, ne_eq, hid hr hp,
    hid hr hq]
  tauto

/-- **The order of the successors is canonical.** When the ids of a fleet differ,
`Successors` lists the endpoints of the other relays that have one, each relay
once, those of the region first and each group by increasing id; the order in
which the controller lists the fleet does not matter, nor does the sort; and two
relays of one region list the rest of the fleet in the same order. -/
theorem successors_canonical (sorter : SortFunc RelayInstance byID) (selfID region : GoString)
    {fleet : List RelayInstance} (hids : (fleet.map RelayInstance.id).Nodup) :
    (∃ same other : List RelayInstance,
      successors sorter selfID region fleet
          = same.map RelayInstance.endpoint ++ other.map RelayInstance.endpoint
        ∧ (same ++ other).Perm (fleet.filter (fun r => r.id ≠ selfID ∧ r.endpoint ≠ []))
        ∧ (∀ r ∈ same, r.region = region) ∧ (∀ r ∈ other, r.region ≠ region)
        ∧ same.Pairwise (fun a b => a.id < b.id) ∧ other.Pairwise (fun a b => a.id < b.id))
    ∧ (∀ (sorter' : SortFunc RelayInstance byID) (fleet' : List RelayInstance),
      fleet.Perm fleet' →
        successors sorter' selfID region fleet' = successors sorter selfID region fleet)
    ∧ ∀ (sorter' : SortFunc RelayInstance byID) (p q : RelayInstance), p ∈ fleet → q ∈ fleet →
      p.region = q.region →
        successors sorter p.id p.region (fleet.filter (fun r => r ≠ q))
          = successors sorter' q.id q.region (fleet.filter (fun r => r ≠ p)) := by
  refine ⟨?_, fun sorter' fleet' hperm => ?_, fun sorter' p q hp hq hregion => ?_⟩
  · refine ⟨_, _, successors_eq sorter selfID region fleet, ?_, fun r hr => ?_, fun r hr => ?_,
      pairwise_lt_sort sorter ?_, pairwise_lt_sort sorter ?_⟩
    · exact ((sorter.perm _).append (sorter.perm _)).trans
        (sameRegion_append_otherRegion_perm selfID region fleet)
    · have hmem := (sorter.perm _).mem_iff.mp hr
      exact (of_decide_eq_true (List.mem_filter.mp hmem).2).2
    · have hmem := (sorter.perm _).mem_iff.mp hr
      exact (of_decide_eq_true (List.mem_filter.mp hmem).2).2
    · exact hids.sublist (List.filter_sublist.map _)
    · exact hids.sublist (List.filter_sublist.map _)
  · exact (successors_eq_of_perm sorter sorter' selfID region hperm hids).symm
  · have hnodup : ((fleet.filter (fun r => r ≠ q)).map RelayInstance.id).Nodup :=
      hids.sublist (List.filter_sublist.map _)
    have hsame := filter_peers_comm hids hp hq (fun r => decide (r.region = q.region))
    have hother := filter_peers_comm hids hp hq (fun r => decide (r.region ≠ q.region))
    simp only [decide_eq_true_iff] at hsame hother
    rw [hregion, successors_eq_of_perm sorter sorter' p.id q.region (List.Perm.refl _) hnodup,
      successors_eq, successors_eq]
    unfold sameRegion otherRegion
    rw [hsame, hother]

/-- Four relays, one of them in another region and one without an endpoint, in an
order of the controller's. -/
def fourRelays : List RelayInstance :=
  [⟨go "r4", go "eu", go "10.0.0.4:7443"⟩, ⟨go "r2", go "us", go "10.0.0.2:7443"⟩,
    ⟨go "r3", go "us", []⟩, ⟨go "r1", go "us", go "10.0.0.1:7443"⟩]

/-- `r1` lists `r2` before `r4`, from the reversed fleet too, and `r1` and `r2`
agree on what is left without the other. -/
theorem successors_of_fourRelays :
    (fourRelays.map RelayInstance.id).Nodup
      ∧ successors sortByID (go "r1") (go "us") fourRelays
        = [go "10.0.0.2:7443", go "10.0.0.4:7443"]
      ∧ successors sortByID (go "r1") (go "us") fourRelays.reverse
        = [go "10.0.0.2:7443", go "10.0.0.4:7443"]
      ∧ successors sortByID (go "r1") (go "us")
          (fourRelays.filter (fun r => r ≠ ⟨go "r2", go "us", go "10.0.0.2:7443"⟩))
        = successors sortByID (go "r2") (go "us")
          (fourRelays.filter (fun r => r ≠ ⟨go "r1", go "us", go "10.0.0.1:7443"⟩)) := by
  have hids : (fourRelays.map RelayInstance.id).Nodup := by decide
  have hlist : successors sortByID (go "r1") (go "us") fourRelays
      = [go "10.0.0.2:7443", go "10.0.0.4:7443"] := by decide
  obtain ⟨-, hperm, hagree⟩ := successors_canonical sortByID (go "r1") (go "us") hids
  refine ⟨hids, hlist, ?_, ?_⟩
  · rw [hperm sortByID _ (List.reverse_perm fourRelays).symm, hlist]
  · exact hagree sortByID ⟨go "r1", go "us", go "10.0.0.1:7443"⟩
      ⟨go "r2", go "us", go "10.0.0.2:7443"⟩ (by decide) (by decide) rfl

/-! ## The heartbeat -/

/-- `pb.UpsertRelayRequest`. -/
structure UpsertRelayRequest where
  id : GoString
  region : GoString
  endpoint : GoString

/-- What the controller answers during one beat: the fleet, or an error. -/
abbrev Controller := UpsertRelayRequest → Option (List RelayInstance)

/-- `Heartbeat`. A subscriber changes the part `σ` of the world it belongs to. -/
structure Heartbeat (σ : Type) where
  id : GoString
  region : GoString
  endpoint : GoString
  last : List GoString
  subs : List (List GoString → σ → σ)

/-- `NewHeartbeat`. -/
def newHeartbeat {σ : Type} (id region endpoint : GoString) : Heartbeat σ :=
  ⟨id, region, endpoint, [], []⟩

namespace Heartbeat

variable {σ : Type}

/-- `Heartbeat.OnSuccessors`. -/
def onSuccessors (hb : Heartbeat σ) (fn : List GoString → σ → σ) : Heartbeat σ :=
  { hb with subs := hb.subs ++ [fn] }

/-- `Heartbeat.beat`: upsert, and tell the subscribers of a list other than the
last. -/
def beat (sorter : SortFunc RelayInstance byID) (hb : Heartbeat σ) (ctrl : Controller) (w : σ) :
    Heartbeat σ × σ :=
  match ctrl ⟨hb.id, hb.region, hb.endpoint⟩ with
  | none => (hb, w)
  | some relays =>
    let next := successors sorter hb.id hb.region relays
    if next = hb.last then (hb, w)
    else ({ hb with last := next }, hb.subs.foldl (fun w fn => fn next w) w)

end Heartbeat

/-- `Server`, as far as it advertises successors. -/
structure AdvertServer where
  successors : List GoString

/-- `Server.SetSuccessors`. -/
def AdvertServer.setSuccessors (_ : AdvertServer) (endpoints : List GoString) : AdvertServer :=
  ⟨endpoints⟩

/-! ## The relay at work -/

/-- What `main` starts from: the flags, and the fleet of the startup answer. -/
structure FleetConfig where
  id : GoString
  region : GoString
  advert : GoString
  first : List RelayInstance

structure FleetState where
  hb : Heartbeat AdvertServer
  server : AdvertServer

/-- The beats of a relay that `main` has started: the server is seeded from the
startup answer, and a fresh heartbeat reports to it. -/
def fleetMachine (sorter : SortFunc RelayInstance byID) (cfg : FleetConfig) :
    Machine FleetState Controller where
  init :=
    { hb := (newHeartbeat cfg.id cfg.region cfg.advert).onSuccessors
        (fun endpoints srv => srv.setSuccessors endpoints)
      server := AdvertServer.setSuccessors ⟨[]⟩
        (successors sorter cfg.id cfg.region cfg.first) }
  step s ctrl :=
    let r := s.hb.beat sorter ctrl s.server
    some ⟨r.1, r.2⟩

section Beats

variable {sorter : SortFunc RelayInstance byID} {cfg : FleetConfig}
variable {s s' : FleetState} {ctrl : Controller} {h : List (Transition FleetState Controller)}

/-- The fleet a beat returns, if it does not fail. -/
def FleetConfig.fleetOf (cfg : FleetConfig) (ctrl : Controller) : Option (List RelayInstance) :=
  ctrl ⟨cfg.id, cfg.region, cfg.advert⟩

/-- The fleets of the successful beats of a run. -/
def FleetConfig.fleets (cfg : FleetConfig) (h : List (Transition FleetState Controller)) :
    List (List RelayInstance) :=
  h.filterMap (fun t => cfg.fleetOf t.ev)

/-- **The list follows a beat**: after a successful one it is that of its fleet, and
after a failed one what it was. -/
def Tracks (sorter : SortFunc RelayInstance byID) (cfg : FleetConfig)
    (t : Transition FleetState Controller) : Prop :=
  match cfg.fleetOf t.ev with
  | some fleet => t.post.server.successors = successors sorter cfg.id cfg.region fleet
  | none => t.post.server.successors = t.pre.server.successors

/-- The heartbeat is the one `main` made. -/
structure Wired (cfg : FleetConfig) (hb : Heartbeat AdvertServer) : Prop where
  id : hb.id = cfg.id
  region : hb.region = cfg.region
  endpoint : hb.endpoint = cfg.advert
  subs : hb.subs = [fun endpoints srv => srv.setSuccessors endpoints]

/-- A failed beat changes nothing. -/
theorem step_of_failed (hw : Wired cfg s.hb) (hfail : cfg.fleetOf ctrl = none)
    (hstep : (fleetMachine sorter cfg).step s ctrl = some s') : s' = s := by
  have hask : ctrl ⟨s.hb.id, s.hb.region, s.hb.endpoint⟩ = none := by
    rw [hw.id, hw.region, hw.endpoint]
    exact hfail
  cases hstep
  simp only [Heartbeat.beat, hask]

/-- A successful beat leaves its list with the heartbeat, and with the server when
it was not there before. -/
theorem step_of_fleet {fleet : List RelayInstance} (hw : Wired cfg s.hb)
    (hfleet : cfg.fleetOf ctrl = some fleet)
    (hstep : (fleetMachine sorter cfg).step s ctrl = some s') :
    Wired cfg s'.hb ∧ s'.hb.last = successors sorter cfg.id cfg.region fleet
      ∧ s'.server.successors
        = if successors sorter cfg.id cfg.region fleet = s.hb.last then s.server.successors
          else successors sorter cfg.id cfg.region fleet := by
  have hask : ctrl ⟨s.hb.id, s.hb.region, s.hb.endpoint⟩ = some fleet := by
    rw [hw.id, hw.region, hw.endpoint]
    exact hfleet
  cases hstep
  rw [← hw.id, ← hw.region]
  simp only [Heartbeat.beat, hask]
  split_ifs with hsame
  · exact ⟨hw, hsame.symm, rfl⟩
  · exact ⟨⟨hw.id, hw.region, hw.endpoint, hw.subs⟩, rfl, by rw [hw.subs]; rfl⟩

/-- **What the two lists are after a run.** Until a fleet has a peer the heartbeat
has reported nothing; from then on the server has what the heartbeat reported
last. -/
structure InStep (sorter : SortFunc RelayInstance byID) (cfg : FleetConfig)
    (h : List (Transition FleetState Controller)) (s : FleetState) : Prop where
  wired : Wired cfg s.hb
  unseen : (∀ fleet ∈ cfg.fleets h, ¬ HasPeer cfg.id fleet) →
    s.hb.last = []
      ∧ s.server.successors = successors sorter cfg.id cfg.region cfg.first
  seen : (∃ fleet ∈ cfg.fleets h, HasPeer cfg.id fleet) → s.server.successors = s.hb.last

theorem fleets_snoc (t : Transition FleetState Controller) :
    cfg.fleets (h ++ [t]) = cfg.fleets h ++ (cfg.fleetOf t.ev).toList := by
  unfold FleetConfig.fleets
  rw [List.filterMap_append]
  congr 1

theorem InStep.step (hI : InStep sorter cfg h s)
    (hstep : (fleetMachine sorter cfg).step s ctrl = some s') :
    InStep sorter cfg (h ++ [⟨s, ctrl, s'⟩]) s' := by
  cases hf : cfg.fleetOf ctrl with
  | none =>
    rw [step_of_failed hI.wired hf hstep]
    have hsame : cfg.fleets (h ++ [⟨s, ctrl, s⟩]) = cfg.fleets h := by
      rw [fleets_snoc, hf]
      exact List.append_nil _
    exact ⟨hI.wired, hsame ▸ hI.unseen, hsame ▸ hI.seen⟩
  | some fleet =>
    obtain ⟨hw, hlast, hserver⟩ := step_of_fleet hI.wired hf hstep
    have hnext := successors_ne_nil_iff sorter cfg.id cfg.region fleet
    have hsnoc : cfg.fleets (h ++ [⟨s, ctrl, s'⟩]) = cfg.fleets h ++ [fleet] := by
      rw [fleets_snoc, hf]
      rfl
    refine ⟨hw, fun hnone => ?_, fun hsome => ?_⟩
    · rw [hsnoc, List.forall_mem_append, List.forall_mem_singleton] at hnone
      obtain ⟨hl, hs⟩ := hI.unseen hnone.1
      have hnil := not_not.mp (mt hnext.mp hnone.2)
      rw [hnil, hl, if_pos rfl] at hserver
      exact ⟨hlast.trans hnil, hserver.trans hs⟩
    · rw [hsnoc] at hsome
      rw [hserver, hlast]
      split_ifs with hsame
      · -- an unchanged list that has ever been reported is the server's
        refine (hI.seen ?_).trans hsame.symm
        by_contra hnone
        obtain ⟨f, hmem, hpeer⟩ := hsome
        rcases List.mem_append.mp hmem with hmem | hmem
        · exact hnone ⟨f, hmem, hpeer⟩
        · cases List.mem_singleton.mp hmem
          rw [(hI.unseen (fun g hg hp => hnone ⟨g, hg, hp⟩)).1] at hsame
          exact hnext.mpr hpeer hsame
      · rfl

theorem inStep_of_exec (hx : (fleetMachine sorter cfg).Exec h s) : InStep sorter cfg h s := by
  induction hx with
  | nil =>
    refine ⟨⟨rfl, rfl, rfl, rfl⟩, fun _ => ⟨rfl, rfl⟩, ?_⟩
    rintro ⟨_, hmem, -⟩
    cases hmem
  | snoc hx hstep ih => exact ih.step hstep

/-- **When one beat is followed**: it fails, or the server was seeded with nothing, or
a peer has been seen. -/
theorem tracks_step_iff (hx : (fleetMachine sorter cfg).Exec h s)
    (hstep : (fleetMachine sorter cfg).step s ctrl = some s') :
    Tracks sorter cfg ⟨s, ctrl, s'⟩
      ↔ cfg.fleetOf ctrl = none ∨ ¬ HasPeer cfg.id cfg.first
        ∨ ∃ fleet ∈ cfg.fleets (h ++ [⟨s, ctrl, s'⟩]), HasPeer cfg.id fleet := by
  have hI := inStep_of_exec hx
  have hI' := hI.step hstep
  unfold Tracks
  cases hf : cfg.fleetOf ctrl with
  | none => simp [step_of_failed hI.wired hf hstep]
  | some fleet =>
    obtain ⟨-, hlast, -⟩ := step_of_fleet hI.wired hf hstep
    by_cases hseen : ∃ f ∈ cfg.fleets (h ++ [⟨s, ctrl, s'⟩]), HasPeer cfg.id f
    · exact iff_of_true ((hI'.seen hseen).trans hlast) (Or.inr (Or.inr hseen))
    · obtain ⟨hnil, hserver⟩ := hI'.unseen (fun f hf hp => hseen ⟨f, hf, hp⟩)
      rw [hlast] at hnil
      simp only [hserver, hnil, hseen, or_false, false_or, reduceCtorEq]
      rw [← successors_ne_nil_iff sorter cfg.id cfg.region, not_not]

end Beats

/-- **When the advertised list tracks the fleet.** In a run of any beats, failing or
returning any fleets, the server's list follows every beat exactly when the
startup fleet had no peer, or the first fleet that a beat returned has one. -/
theorem tracks_iff {sorter : SortFunc RelayInstance byID} {cfg : FleetConfig}
    {h : List (Transition FleetState Controller)} {s : FleetState}
    (hx : (fleetMachine sorter cfg).Exec h s) :
    (∀ t ∈ h, Tracks sorter cfg t)
      ↔ ¬ HasPeer cfg.id cfg.first
        ∨ ∀ fleet, (cfg.fleets h).head? = some fleet → HasPeer cfg.id fleet := by
  induction hx with
  | nil =>
    refine iff_of_true (fun _ ht => absurd ht List.not_mem_nil) (Or.inr (fun fleet hf => ?_))
    cases hf
  | @snoc h s s' ctrl hx hstep ih =>
    rw [List.forall_mem_append, List.forall_mem_singleton, ih, tracks_step_iff hx hstep,
      fleets_snoc]
    cases hfleets : cfg.fleets h with
    | nil =>
      -- this beat is the first to succeed, if it does
      cases hf : cfg.fleetOf ctrl with
      | none => simp
      | some fleet => simp
    | cons fleet fleets =>
      rw [List.cons_append, List.head?_cons, List.head?_cons]
      refine and_iff_left_of_imp (fun hfirst => Or.inr ?_)
      rcases hfirst with hnone | hpeer
      · exact Or.inl hnone
      · exact Or.inr ⟨fleet, List.mem_cons_self, hpeer fleet rfl⟩

/-- A relay of region `us`, with one peer at startup. -/
def startedWithPeer : FleetConfig :=
  ⟨go "r1", go "us", go "10.0.0.1:7443",
    [⟨go "r1", go "us", go "10.0.0.1:7443"⟩, ⟨go "r2", go "us", go "10.0.0.2:7443"⟩]⟩

/-- The relay alone in its fleet. -/
def aloneFleet : List RelayInstance := [⟨go "r1", go "us", go "10.0.0.1:7443"⟩]

/-- The peer leaves before the first beat, and the relay goes on advertising it. -/
theorem departed_peer_advertised :
    ∃ h s, (fleetMachine sortByID startedWithPeer).Exec h s
      ∧ startedWithPeer.fleets h = [aloneFleet, aloneFleet]
      ∧ successors sortByID (go "r1") (go "us") aloneFleet = []
      ∧ s.server.successors = [go "10.0.0.2:7443"]
      ∧ ¬ ∀ t ∈ h, Tracks sortByID startedWithPeer t := by
  have hx := (Machine.Exec.nil (M := fleetMachine sortByID startedWithPeer)).snoc
    (e := fun _ => some aloneFleet) rfl
  have hx' := hx.snoc (e := fun _ => some aloneFleet) rfl
  refine ⟨_, _, hx', rfl, rfl, rfl, fun hall => ?_⟩
  have htracks : [go "10.0.0.2:7443"] = ([] : List GoString) :=
    hall _ (List.mem_append_right _ (List.mem_singleton_self _))
  cases htracks

/-- The peer leaves after a beat has seen it. -/
theorem departed_peer_dropped :
    ∃ h s, (fleetMachine sortByID startedWithPeer).Exec h s
      ∧ startedWithPeer.fleets h = [startedWithPeer.first, aloneFleet]
      ∧ ∀ t ∈ h, Tracks sortByID startedWithPeer t := by
  have hx := ((Machine.Exec.nil (M := fleetMachine sortByID startedWithPeer)).snoc
    (e := fun _ => none) rfl).snoc (e := fun _ => some startedWithPeer.first) rfl
  have hx' := hx.snoc (e := fun _ => some aloneFleet) rfl
  refine ⟨_, _, hx', rfl, (tracks_iff hx').mpr (Or.inr (fun fleet hf => ?_))⟩
  cases hf
  decide
