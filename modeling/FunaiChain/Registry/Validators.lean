import FunaiChain.Registry.Lifecycle

/-!
# FunaiChain.Registry.Validators

The rotation of the validators: which workers it selects (`State.selected`), the updates
that it returns for them (`rotateValidators_updates`), and the set after all updates so
far.  An update names a worker with its power, and the power is never zero, so whoever
was a validator once stays one (`jailed_validator_stays`).  The set follows the selection
only as long as everyone in it is still eligible, and everyone eligible is selected
(`validators_follow`).

`SelectLeader` is called by `CheckLeaderTimeouts` alone, which passes over a model
without a leader.  So a chain that starts without leaders never gets one
(`Chain.exec_leaderless`).
-/

namespace FunaiChain.Registry

variable {env : Env} {block : Vrf.Block} {s s' : State}

section
open Settlement (devAddr)
open State
variable {vrf : Vrf.State} {w : Worker} {ws : List Worker} {a : Addr}
  {validators : Store Bytes Int} {updates : List ValidatorUpdate} {c : Chain} {headerHash : Bytes}

/-! ## the selection -/

/-- The workers that `EndBlock` collects. -/
def State.eligible (s : State) : List Worker := s.getAllWorkers.filter isEligible

/-- The power of a worker. -/
def powerOf (w : Worker) : Int := if w.stake.amount ≤ 0 then 1 else w.stake.amount

/-- The size of a committee among `n` workers. -/
def committeeSize (params : Vrf.Params) (n : Nat) : Int :=
  if (n : Int) < Vrf.asInt params.committeeSize then n else Vrf.asInt params.committeeSize

/-- The addresses that a rotation selects among some: the first of the ranking of those
that the VRF module knows, and all of them where that is nobody. -/
def chosen (env : Env) (block : Vrf.Block) (vrf : Vrf.State) (eligible : List Addr) : List Addr :=
  let size := committeeSize vrf.params eligible.length
  let ranked := Vrf.rankWorkers env.toVrf (env.sha256 (vrf.entropy block))
    (eligible.filterMap vrf.rankedWorker) .dispatch
  let members := (ranked.take size.toNat).map Vrf.RankedWorker.address
  if members = [] then eligible else members

/-- The workers that a rotation selects. -/
def State.selected (env : Env) (block : Vrf.Block) (s : State) : List Worker :=
  (chosen env block s.vrf (s.eligible.map Worker.address)).filterMap s.world.workers.get

variable {eligible : List Addr}

theorem selectCommittee_chosen :
    OnValue (fun r => chosen env block vrf eligible = match r with
      | .error _ => eligible
      | .ok (_, committee) => if committee.members = [] then eligible
          else committee.members.map Vrf.CommitteeMember.address)
      (Vrf.selectCommittee env.toVrf block vrf eligible) := by
  unfold Vrf.selectCommittee
  rw [← committeeSize.eq_1]
  refine .ite (fun hzero => .ok ?_) fun _ => .ite (fun hnone => .ok ?_) fun _ =>
    .either .error <| .ok ?_
  · simp [chosen, hzero]
  · simp [chosen, hnone, Vrf.rankWorkers]
  · simp [chosen, Function.comp_def]

theorem selectedAddrs_spec : OnValue (fun r => r.2 = chosen env block s.vrf eligible)
    (selectedAddrs env block s eligible) := by
  refine .ite (fun hnil => .ok ?_) fun _ => selectCommittee_chosen.bind fun r hr => ?_
  · simp [hnil, chosen, Vrf.rankWorkers]
  cases r with
  | error => exact .ok hr.symm
  | ok p =>
    exact .ite (fun h => .ok (hr.trans (if_pos h)).symm) fun h => .ok (hr.trans (if_neg h)).symm

/-! ### who is selected -/

/-- The ranked ones are those that the module knows. -/
theorem map_address_filterMap (vrf : Vrf.State) (eligible : List Addr) :
    (eligible.filterMap vrf.rankedWorker).map Vrf.RankedWorker.address =
    eligible.filter fun a => (vrf.rankedWorker a).isSome := by
  induction eligible with
  | nil => rfl
  | cons a _ ih =>
    cases hr : vrf.rankedWorker a with
    | none => simp [hr, ih]
    | some => simp [hr, ih, Vrf.rankedWorker_address hr]

/-- The addresses of a ranking. -/
theorem perm_ranked (env : Env) (vrf : Vrf.State) (eligible : List Addr) (seed : Bytes) :
    ((Vrf.rankWorkers env.toVrf seed (eligible.filterMap vrf.rankedWorker) .dispatch).map
    Vrf.RankedWorker.address).Perm (eligible.filter fun a => (vrf.rankedWorker a).isSome) := by
  rw [← map_address_filterMap]
  exact Vrf.perm_rankWorkers.map _

theorem mem_of_mem_chosen (h : a ∈ chosen env block vrf eligible) : a ∈ eligible := by
  unfold chosen at h
  dsimp only at h
  split at h
  · exact h
  · have hmem := List.map_subset _ (List.take_subset _ _) h
    rw [(perm_ranked _ _ _ _).mem_iff] at hmem
    exact (List.mem_filter.mp hmem).1

theorem nodup_chosen (h : eligible.Nodup) : (chosen env block vrf eligible).Nodup := by
  unfold chosen
  dsimp only
  split
  · exact h
  · refine List.Nodup.sublist ((List.take_sublist _ _).map _) ?_
    rw [(perm_ranked _ _ _ _).nodup_iff]
    exact h.filter _

/-- Where the module knows nobody, everyone is selected. -/
theorem chosen_of_unknown (h : ∀ a ∈ eligible, vrf.rankedWorker a = none) :
    chosen env block vrf eligible = eligible := by
  have hnone : eligible.filterMap vrf.rankedWorker = [] := by simp_all
  simp [chosen, hnone, Vrf.rankWorkers]

/-- Where it knows everyone, and the committee has room, as well. -/
theorem chosen_of_known (h : ∀ a ∈ eligible, (vrf.rankedWorker a).isSome = true)
    (hroom : (eligible.length : Int) ≤ Vrf.asInt vrf.params.committeeSize) :
    (chosen env block vrf eligible).Perm eligible := by
  have hsize : committeeSize vrf.params eligible.length = eligible.length := by
    unfold committeeSize
    split <;> omega
  have hall : ((Vrf.rankWorkers env.toVrf (env.sha256 (vrf.entropy block))
      (eligible.filterMap vrf.rankedWorker) .dispatch).map Vrf.RankedWorker.address).Perm
      eligible := by
    refine (perm_ranked env vrf eligible _).trans ?_
    rw [List.filter_eq_self.mpr h]
  have hlength := hall.length_eq
  rw [List.length_map] at hlength
  unfold chosen
  dsimp only
  rw [hsize, Int.toNat_natCast, List.take_of_length_le (by omega)]
  split
  · exact .refl _
  · exact hall

theorem chosen_ne_nil (h : eligible ≠ []) : chosen env block vrf eligible ≠ [] := by
  unfold chosen
  dsimp only
  split
  · exact h
  · assumption

/-- A committee without seats: everyone is selected. -/
theorem chosen_of_no_seats (h : Vrf.asInt vrf.params.committeeSize ≤ 0) :
    chosen env block vrf eligible = eligible := by
  have hsize : (committeeSize vrf.params eligible.length).toNat = 0 := by
    unfold committeeSize
    split <;> omega
  simp [chosen, hsize]

/-- A committee with seats takes only workers that the module knows, if it knows one. -/
theorem known_of_mem_chosen {b : Addr} (hseats : 0 < Vrf.asInt vrf.params.committeeSize)
    (hb : b ∈ eligible) (hknown : (vrf.rankedWorker b).isSome = true)
    (ha : a ∈ chosen env block vrf eligible) : (vrf.rankedWorker a).isSome = true := by
  have hperm := perm_ranked env vrf eligible (env.sha256 (vrf.entropy block))
  unfold chosen at ha
  dsimp only at ha
  split at ha
  · next hnone =>
    -- there is a seat and someone to take it
    have hlength := List.length_pos_of_mem (hperm.mem_iff.mpr (List.mem_filter.mpr ⟨hb, hknown⟩))
    have hpos : 0 < (committeeSize vrf.params eligible.length).toNat := by
      have := List.length_pos_of_mem hb
      unfold committeeSize
      split <;> omega
    have hzero := congrArg List.length hnone
    rw [List.length_map, List.length_take, List.length_nil] at hzero
    rw [List.length_map] at hlength
    omega
  · have hmem := List.map_subset _ (List.take_subset _ _) ha
    exact (List.mem_filter.mp (hperm.mem_iff.mp hmem)).2

/-- One worker is always selected. -/
theorem chosen_of_single (h : eligible.length ≤ 1) : chosen env block vrf eligible = eligible := by
  cases hlist : eligible with
  | nil => simp [chosen, Vrf.rankWorkers]
  | cons a rest =>
    rw [hlist, List.length_cons] at h
    obtain rfl : rest = [] := List.length_eq_zero_iff.mp (by omega)
    have hnodup : (chosen env block vrf [a]).Nodup := nodup_chosen (List.nodup_singleton a)
    have hall : ∀ b ∈ chosen env block vrf [a], b = a := fun b hb =>
      List.mem_singleton.mp (mem_of_mem_chosen hb)
    have hne : chosen env block vrf [a] ≠ [] := chosen_ne_nil (List.cons_ne_nil a [])
    generalize chosen env block vrf [a] = members at hnodup hall hne
    match members with
    | [] => contradiction
    | [b] => rw [hall b (.head _)]
    | b :: c :: _ => simp_all

/-! ## the updates -/

/-- A worker as the rotation keeps it. -/
def toCandidate (w : Worker) : Candidate := ⟨w.address, w.pubkey, powerOf w⟩

/-- The update of a selected worker. -/
def updateOf (w : Worker) : ValidatorUpdate := ⟨Utf8.bytes w.pubkey, powerOf w⟩

/-- The stakes that a power can be read from. -/
def FitsInt64 (w : Worker) : Prop := -2 ^ 63 ≤ w.stake.amount ∧ w.stake.amount < 2 ^ 63

instance (w : Worker) : Decidable (FitsInt64 w) := inferInstanceAs (Decidable (_ ∧ _))

theorem candidate_eq_ok {c : Candidate} :
    candidate w = .ok c ↔ FitsInt64 w ∧ c = toCandidate w := by
  unfold candidate Modelreg.int64
  by_cases hfits : FitsInt64 w
  · rw [if_pos (by exact hfits), ok_bind, pure_eq_ok, Except.ok.injEq]
    exact ⟨fun h => ⟨hfits, h.symm⟩, fun h => h.2.symm⟩
  · rw [if_neg (by exact hfits)]
    exact ⟨nofun, fun h => absurd h.1 hfits⟩

theorem mapM_candidate_eq_ok {cs : List Candidate} :
    ws.mapM candidate = .ok cs ↔ (∀ w ∈ ws, FitsInt64 w) ∧ cs = ws.map toCandidate := by
  induction ws generalizing cs with
  | nil => simp_all
  | cons w ws ih =>
    rw [List.mapM_cons, List.forall_mem_cons, List.map_cons]
    constructor
    · intro h
      obtain ⟨c, hc, h⟩ := bind_eq_ok.mp h
      obtain ⟨cs', hcs', h⟩ := bind_eq_ok.mp h
      obtain ⟨hfits, rfl⟩ := candidate_eq_ok.mp hc
      obtain ⟨hall, rfl⟩ := ih.mp hcs'
      exact ⟨⟨hfits, hall⟩, (Except.ok.inj h).symm⟩
    · rintro ⟨⟨hfits, hall⟩, rfl⟩
      refine bind_eq_ok.mpr ⟨toCandidate w, candidate_eq_ok.mpr ⟨hfits, rfl⟩, ?_⟩
      exact bind_eq_ok.mpr ⟨ws.map toCandidate, ih.mpr ⟨hall, rfl⟩, rfl⟩

theorem mem_eligible :
    w ∈ s.eligible ↔ s.world.workers.get w.address = some w ∧ isEligible w = true := by
  rw [eligible, List.mem_filter, getAllWorkers]
  exact and_congr_left fun _ => ⟨World.get_of_mem, fun h =>
    List.mem_map.mpr ⟨(w.address, w), Table.mem_entries.mpr h, rfl⟩⟩

theorem nodup_eligible (s : State) : (s.eligible.map Worker.address).Nodup := by
  have hdistinct := (snapshot_getAllWorkers s).distinct
  rw [List.map_map] at hdistinct
  exact hdistinct.sublist (List.filter_sublist.map _)

/-- An address of the selection has its worker's update. -/
theorem validatorUpdate_eq (hw : w ∈ ws) (hnodup : (ws.map Worker.address).Nodup) :
    validatorUpdate (ws.map toCandidate) w.address = some (updateOf w) := by
  unfold validatorUpdate
  induction ws with
  | nil => contradiction
  | cons w' _ ih =>
    obtain ⟨hfirst, hrest⟩ := List.nodup_cons.mp hnodup
    rw [List.map_cons, List.find?_cons]
    obtain rfl | hmem := List.mem_cons.mp hw
    · simp [toCandidate, updateOf]
    · have hne : w'.address ≠ w.address := fun he =>
        hfirst (he ▸ List.mem_map_of_mem hmem)
      have hbeq : ((toCandidate w').address == w.address) = false := by
        simpa [toCandidate] using hne
      rw [hbeq]
      exact ih hmem hrest

/-- **A rotation returns the updates of the selected workers.** -/
theorem rotateValidators_updates :
    OnValue (fun r => (∀ w ∈ s.eligible, FitsInt64 w) ∧ r.2 = (s.selected env block).map updateOf)
    (rotateValidators env block s) := by
  refine .after fun candidates hcandidates => ?_
  obtain ⟨hfits, rfl⟩ := mapM_candidate_eq_ok.mp hcandidates
  refine selectedAddrs_spec.bind ?_
  rintro ⟨s₁, selected⟩ rfl
  refine .ok ⟨hfits, ?_⟩
  change List.filterMap (validatorUpdate (s.eligible.map toCandidate))
    (chosen env block s.vrf ((s.eligible.map toCandidate).map Candidate.address)) = _
  have haddrs : (s.eligible.map toCandidate).map Candidate.address =
      s.eligible.map Worker.address := by
    rw [List.map_map]
    rfl
  rw [haddrs, selected, List.map_filterMap]
  refine List.filterMap_congr fun a ha => ?_
  obtain ⟨w, hw, rfl⟩ := List.mem_map.mp (mem_of_mem_chosen ha)
  rw [validatorUpdate_eq hw (nodup_eligible s), (mem_eligible.mp hw).1]
  rfl

/-! ## the exits before a rotation -/

/-- The eligible workers as a part of the store. -/
theorem eligible_eq_entries (s : State) :
    s.eligible = (s.world.workers.filter fun _ w => isEligible w).entries.map Prod.snd := by
  rw [eligible, getAllWorkers, Table.entries_filter, List.filter_map]
  rfl

theorem eligible_congr (h : ∀ a, (s'.world.workers.get a).filter isEligible =
    (s.world.workers.get a).filter isEligible) : s'.eligible = s.eligible := by
  rw [eligible_eq_entries, eligible_eq_entries]
  congr 2
  refine Table.ext_get fun a => ?_
  rw [Table.get_filter, Table.get_filter, h]

/-- What a rotation selects depends on the eligible workers and the VRF module. -/
theorem selected_congr (hvrf : s'.vrf = s.vrf)
    (h : ∀ a, (s'.world.workers.get a).filter isEligible =
    (s.world.workers.get a).filter isEligible) : s'.selected env block = s.selected env block := by
  unfold selected
  rw [hvrf, eligible_congr h]
  refine List.filterMap_congr fun a ha => ?_
  obtain ⟨w, hw, rfl⟩ := List.mem_map.mp (mem_of_mem_chosen ha)
  obtain ⟨hget, heligible⟩ := mem_eligible.mp hw
  have hfilter := h w.address
  rw [hget, Option.filter_some_pos heligible] at hfilter
  rw [hget]
  exact (Option.filter_eq_some_iff.mp hfilter).1

/-- Whoever leaves was not eligible. -/
theorem Step.eligible_remove {c : Coin} (h : Step env block s (.remove a c) s') (b : Addr) :
    (s'.world.workers.get b).filter isEligible = (s.world.workers.get b).filter isEligible := by
  rw [get_eq_entry, get_eq_entry]
  by_cases hb : a = b
  · subst hb
    have hchange := h.change a rfl
    generalize s.entry a = e, s'.entry a = e' at hchange
    cases hchange with
    | remove _ exiting =>
      simp [Option.filter, isEligible, isActive, exiting]
  · rw [h.others b (by simpa [Label.addr] using hb)]

theorem processExitingWorkers_eligible :
    OnValue (fun s' => s'.vrf = s.vrf ∧ ∀ b, (s'.world.workers.get b).filter isEligible =
    (s.world.workers.get b).filter isEligible) (processExitingWorkers env block.height s) := by
  refine processExitingWorkers_steps.mono fun s' ⟨labs, hsteps, hlabs⟩ => ?_
  refine hsteps.invariant (P := fun s' => s'.vrf = s.vrf ∧ ∀ b,
    (s'.world.workers.get b).filter isEligible = (s.world.workers.get b).filter isEligible)
    (fun s₁ s₂ lab hlab hP hstep => ?_) ⟨rfl, fun _ => rfl⟩
  obtain ⟨a, c, rfl⟩ := hlabs lab hlab
  exact ⟨(hstep.vrf (by simp)).trans hP.1, fun b => (hstep.eligible_remove b).trans (hP.2 b)⟩

/-- **The updates of a block**: those of the selected workers at a rotation. -/
theorem endBlock_updates (hheight : block.height % 120 = 0) :
    OnValue (fun r => r.2 = (s.selected env block).map updateOf) (endBlock env block s) := by
  refine processExitingWorkers_eligible.bind fun s₁ ⟨hvrf, heligible⟩ => ?_
  rw [if_neg (by simpa using hheight)]
  exact rotateValidators_updates.mono fun r hr => hr.2.trans
    (congrArg _ (selected_congr hvrf heligible))

/-! ## the set of validators -/

theorem updateOf_power_ne (w : Worker) : (updateOf w).power ≠ 0 := by
  unfold updateOf powerOf
  dsimp only
  split <;> omega

theorem applyUpdate_updateOf (validators : Store Bytes Int) (w : Worker) :
    applyUpdate validators (updateOf w) = validators.put (Utf8.bytes w.pubkey) (powerOf w) :=
  if_neg (updateOf_power_ne w)

/-- A key that no update names is left alone. -/
theorem get_foldl_of_not_mem {k : Bytes} (h : ∀ w ∈ ws, Utf8.bytes w.pubkey ≠ k) :
    ((ws.map updateOf).foldl applyUpdate validators).get k = validators.get k := by
  induction ws generalizing validators with
  | nil => rfl
  | cons _ _ ih =>
    obtain ⟨hw, hws⟩ := List.forall_mem_cons.mp h
    rw [List.map_cons, List.foldl_cons, ih hws, applyUpdate_updateOf, Table.get_put, if_neg hw]

/-- Of updates with different keys each one is found. -/
theorem get_foldl_of_mem (hnodup : (ws.map fun w => Utf8.bytes w.pubkey).Nodup) (hw : w ∈ ws) :
    ((ws.map updateOf).foldl applyUpdate validators).get (Utf8.bytes w.pubkey) =
    some (powerOf w) := by
  induction ws generalizing validators with
  | nil => contradiction
  | cons w' ws ih =>
    obtain ⟨hfirst, hrest⟩ := List.nodup_cons.mp hnodup
    rw [List.map_cons, List.foldl_cons]
    obtain rfl | hmem := List.mem_cons.mp hw
    · have hothers : ∀ w' ∈ ws, Utf8.bytes w'.pubkey ≠ Utf8.bytes w.pubkey :=
        fun w' hw' heq => hfirst (List.mem_map.mpr ⟨w', hw', heq⟩)
      rw [get_foldl_of_not_mem hothers, applyUpdate_updateOf, Table.get_put, if_pos rfl]
    · exact ih hrest hmem

/-- The set is exactly these workers with their powers. -/
def Follows (validators : Store Bytes Int) (selected : List Worker) : Prop :=
  ∀ k p, validators.get k = some p ↔ ∃ w ∈ selected, Utf8.bytes w.pubkey = k ∧ powerOf w = p

theorem follows_foldl (hnodup : (ws.map fun w => Utf8.bytes w.pubkey).Nodup)
    (hold : ∀ k p, validators.get k = some p → ∃ w ∈ ws, Utf8.bytes w.pubkey = k) :
    Follows ((ws.map updateOf).foldl applyUpdate validators) ws := by
  intro k p
  constructor
  · intro hget
    by_cases hk : ∃ w ∈ ws, Utf8.bytes w.pubkey = k
    · obtain ⟨w, hw, rfl⟩ := hk
      rw [get_foldl_of_mem hnodup hw] at hget
      exact ⟨w, hw, rfl, Option.some.inj hget⟩
    · rw [get_foldl_of_not_mem fun w hw heq => hk ⟨w, hw, heq⟩] at hget
      exact absurd (hold k p hget) hk
  · rintro ⟨w, hw, rfl, rfl⟩
    exact get_foldl_of_mem hnodup hw

/-! ## rotations along a run -/

/-- The rotations that the set can follow: the eligible workers have different keys, and
the set is empty, or all in it are eligible and everyone eligible is selected, because the
committee has room and the VRF module knows all of them or nobody. -/
def keepsPace (c : Chain) : Event → Bool
  | .nextBlock _ =>
      let eligible := c.state.eligible
      let keys := eligible.map fun w => Utf8.bytes w.pubkey
      let known := fun w : Worker => (c.state.vrf.rankedWorker w.address).isSome
      c.block.height % 120 != 0 || decide keys.Nodup && (c.validators.isEmpty ||
        (c.validators.entries.map Prod.fst).all keys.contains &&
          decide ((eligible.length : Int) ≤ Vrf.asInt c.state.vrf.params.committeeSize) &&
          (eligible.all known || eligible.all fun w => !known w))
  | _ => true

/-- With room, and with all or nobody known, everyone eligible is selected. -/
theorem mem_selected_of_room
    (hroom : (s.eligible.length : Int) ≤ Vrf.asInt s.vrf.params.committeeSize)
    (hknown : (∀ w ∈ s.eligible, (s.vrf.rankedWorker w.address).isSome = true) ∨
    ∀ w ∈ s.eligible, s.vrf.rankedWorker w.address = none) (hw : w ∈ s.eligible) :
    w ∈ s.selected env block := by
  rw [selected, List.mem_filterMap]
  refine ⟨w.address, ?_, (mem_eligible.mp hw).1⟩
  have hmem : w.address ∈ s.eligible.map Worker.address := List.mem_map_of_mem hw
  obtain hall | hnone := hknown
  · refine (chosen_of_known (fun a ha => ?_) (by simpa using hroom)).mem_iff.mpr hmem
    obtain ⟨w', hw', rfl⟩ := List.mem_map.mp ha
    exact hall w' hw'
  · rw [chosen_of_unknown fun a ha => ?_]
    · exact hmem
    · grind

theorem mem_eligible_of_selected (h : w ∈ s.selected env block) : w ∈ s.eligible := by
  rw [selected, List.mem_filterMap] at h
  obtain ⟨a, ha, hget⟩ := h
  obtain ⟨w', hw', rfl⟩ := List.mem_map.mp (mem_of_mem_chosen ha)
  rw [(mem_eligible.mp hw').1] at hget
  cases hget
  exact hw'

theorem map_address_selected (s : State) : (s.selected env block).map Worker.address =
    chosen env block s.vrf (s.eligible.map Worker.address) := by
  rw [selected, List.map_filterMap]
  calc List.filterMap _ _
      = (chosen env block s.vrf (s.eligible.map Worker.address)).filterMap some :=
        List.filterMap_congr fun a ha => by
          obtain ⟨w, hw, rfl⟩ := List.mem_map.mp (mem_of_mem_chosen ha)
          rw [(mem_eligible.mp hw).1]
          rfl
    _ = _ := List.filterMap_some

theorem nodup_selected (s : State) : ((s.selected env block).map Worker.address).Nodup := by
  rw [map_address_selected]
  exact nodup_chosen (nodup_eligible s)

/-- Different keys of the eligible are different keys of the selected. -/
theorem nodup_keys_selected (h : (s.eligible.map fun w => Utf8.bytes w.pubkey).Nodup) :
    ((s.selected env block).map fun w => Utf8.bytes w.pubkey).Nodup := by
  refine List.Nodup.map_on (fun w hw w' hw' heq => ?_) (List.Nodup.of_map _ (nodup_selected s))
  exact List.inj_on_of_nodup_map h (mem_eligible_of_selected hw) (mem_eligible_of_selected hw') heq

/-- What the condition says of a rotation. -/
theorem keepsPace_spec (h : keepsPace c (.nextBlock headerHash) = true)
    (hheight : c.block.height % 120 = 0) :
    (c.state.eligible.map fun w => Utf8.bytes w.pubkey).Nodup ∧
    ∀ k p, c.validators.get k = some p → ∃ w ∈ c.state.selected env c.block,
    Utf8.bytes w.pubkey = k := by
  simp only [keepsPace, hheight, bne_self_eq_false, Bool.false_or, Bool.and_eq_true,
    decide_eq_true_eq] at h
  obtain ⟨hnodup, hold⟩ := h
  refine ⟨hnodup, fun k p hget => ?_⟩
  obtain hempty | hkeeps := Bool.or_eq_true_iff.mp hold
  · rw [Table.eq_empty_of_isEmpty hempty, Table.get_empty] at hget
    contradiction
  · simp only [Bool.and_eq_true, Bool.or_eq_true, decide_eq_true_eq, List.all_eq_true,
      Bool.not_eq_eq_eq_not, Bool.not_true, Option.isSome_eq_false_iff, Option.isNone_iff_eq_none]
      at hkeeps
    obtain ⟨⟨hkeys, hroom⟩, hknown⟩ := hkeeps
    have hk : k ∈ c.validators.entries.map Prod.fst :=
      List.mem_map.mpr ⟨(k, p), Table.mem_entries.mpr hget, rfl⟩
    obtain ⟨w, hw, rfl⟩ := List.mem_map.mp (List.contains_iff_mem.mp (hkeys k hk))
    exact ⟨w, mem_selected_of_room hroom hknown hw, rfl⟩

theorem Chain.exec_follows {c' : Chain} (h : c.exec env (.nextBlock headerHash) = .ok c')
    (hok : keepsPace c (.nextBlock headerHash) = true) (hheight : c.block.height % 120 = 0) :
    Follows c'.validators (c.state.selected env c.block) := by
  obtain ⟨s, updates, _, hend, -, hvalidators⟩ := Chain.exec_nextBlock h
  obtain rfl : updates = _ := (endBlock_updates hheight).get hend
  rw [hvalidators]
  obtain ⟨hnodup, hold⟩ := keepsPace_spec hok hheight
  exact follows_foldl (nodup_keys_selected hnodup) hold

/-- **The validators follow the committee**, in every run whose rotations keep pace: after
each rotation of it the set is exactly the workers selected there, with their power. -/
theorem validators_follow {c₀ cₙ : Chain} {before after : List Event} {headerHash : Bytes}
    (h : RunWith env (fun c ev => keepsPace c ev = true) c₀
      (before ++ .nextBlock headerHash :: after) cₙ) :
    ∃ c c', Run env c₀ before c ∧ c.exec env (.nextBlock headerHash) = .ok c' ∧
      Run env c' after cₙ ∧
      (c.block.height % 120 = 0 → Follows c'.validators (c.state.selected env c.block)) := by
  obtain ⟨c, hbefore, hrest⟩ := h.of_append
  cases hrest with
  | @cons _ c' _ _ _ hok hexec hafter =>
    exact ⟨c, c', hbefore.mono fun _ _ _ => trivial, hexec, hafter.mono fun _ _ _ => trivial,
      Chain.exec_follows hexec hok⟩

/-- Two workers become validators in a rotation, and 120 blocks pass. -/
def devPair : List Event :=
  [devRegister "alice@worker.example" 1 [[65]], devRegister "bobby@worker.example" 2 [[65]],
    .nextBlock []]

/-- At the second rotation the validators are those selected. -/
theorem devPair_follow : ∃ cₙ, RunWith devEnv (fun c ev => keepsPace c ev = true) (devChain 120)
        ((devPair ++ List.replicate 119 (.nextBlock [])) ++ .nextBlock [] :: []) cₙ ∧
      ∃ c c', Run devEnv (devChain 120) (devPair ++ List.replicate 119 (.nextBlock [])) c ∧
        c.exec devEnv (.nextBlock []) = .ok c' ∧ Run devEnv c' [] cₙ ∧
        (c.block.height % 120 = 0 → Follows c'.validators (c.state.selected devEnv c.block)) := by
  refine exists_and_imp (q := fun _ => True) (by decide +kernel) fun cₙ hrun _ => ?_
  exact validators_follow hrun

/-- The same, but one of the two is jailed after the first rotation. -/
def devJailed : List Event :=
  devPair ++ .call (.jailWorker (devAddr "alice@worker.example")) ::
    List.replicate 119 (.nextBlock [])

/-- **Nobody is taken out of the set**: after the next rotation the jailed worker is still
a validator, though only the other one was selected. -/
theorem jailed_validator_stays : ∃ c, Run devEnv (devChain 120) devJailed c ∧ c.block.height = 240 ∧
      ∃ c', c.exec devEnv (.nextBlock []) = .ok c' ∧ c'.validators.get (devKey 1) = some 100 ∧
        (c.state.selected devEnv c.block).map Worker.address =
          [devAddr "bobby@worker.example"] := by
  decide +kernel

end

open Modelreg (ModelId)
variable {v : Vrf.State} {eligible : List Addr}

/-- No model has a leader. -/
def Leaderless (v : Vrf.State) : Prop := ∀ m, v.leaders.get m = none

/-! ## the ends of a block -/

theorem selectCommittee_leaderless (h : Leaderless v) : OnValue (OnValue fun r => Leaderless r.1)
    (Vrf.selectCommittee env.toVrf block v eligible) :=
  .either (.ok .error) <| .either (.ok .error) <| .either .error <| .ok (.ok h)

theorem handleCommitteeRotation_leaderless (h : Leaderless v) :
    OnValue Leaderless (Vrf.handleCommitteeRotation env.toVrf block v eligible) :=
  .either ((selectCommittee_leaderless h).bind_result (fun _ => .ok h) fun _ => .ok) <| .ok h

/-- Without leaders, nobody is elected. -/
theorem checkLeaderTimeouts_of_leaderless (h : Leaderless v) (models : List ModelId)
    (workers : ModelId → List Addr) :
    Vrf.checkLeaderTimeouts env.toVrf block v models workers = v := by
  refine List.foldl_fixed' (fun m => ?_) models
  rw [Vrf.checkLeaderTimeout, h m]

theorem foldl_syncWorker_leaderless (ws : List Worker) (h : Leaderless v) :
    Leaderless (ws.foldl syncWorker v) := by
  induction ws generalizing v with
  | nil => exact h
  | cons _ _ ih =>
    refine ih ?_
    unfold syncWorker
    dsimp only
    split <;> exact h

theorem Does.vrf {kind : Label → Prop} (h : Does env block kind s s') (hkind : ¬ kind .vrf) :
    s'.vrf = s.vrf := by
  obtain ⟨labs, hsteps, hlabs⟩ := h
  exact hsteps.invariant (P := fun s' => s'.vrf = s.vrf)
    (fun _ _ lab hlab hs hstep => (hstep.vrf fun he => hkind (he ▸ hlabs lab hlab)).trans hs) rfl

theorem endBlock_leaderless (hs : Leaderless s.vrf) :
    OnValue (fun r => Leaderless r.1.vrf) (endBlock env block s) := by
  refine processExitingWorkers_steps.bind fun s₁ hexits => ?_
  have hs₁ : Leaderless s₁.vrf := by
    rw [hexits.vrf (by simp)]
    exact hs
  refine .either (.ok hs₁) <| .after fun _ _ => .bind (Q := fun r =>
    Leaderless r.1.vrf) (.either (.ok hs₁) ?_) fun r hr => .ok hr
  exact (selectCommittee_leaderless hs₁).bind_result (fun _ => .ok hs₁) fun r hr =>
    .either (.ok hr) <| .ok hr

theorem beginBlock_leaderless (hs : Leaderless s.vrf) :
    OnValue (fun s' => Leaderless s'.vrf) (beginBlock env block s) := by
  have hdecay : ∀ (ws : List Worker) (s : State), (ws.foldl (fun s worker =>
      s.setWorker (decayReputation worker)) s).vrf = s.vrf := by
    intro ws
    induction ws with
    | nil => exact fun _ => rfl
    | cons _ _ ih => exact fun _ => ih _
  refine .bind (Q := fun s' => Leaderless s'.vrf) ?_ fun s' hs' => .ok ?_
  · rw [beginBlockVrf, checkLeaderTimeouts_of_leaderless hs]
    exact (handleCommitteeRotation_leaderless (foldl_syncWorker_leaderless _ hs)).bind
      fun _ h => .ok h
  · split
    · rwa [reputationDecayAll, hdecay]
    · exact hs'

/-! ## runs -/

theorem Chain.exec_leaderless {c c' : Chain} {ev : Event} (h : c.exec env ev = .ok c')
    (hc : Leaderless c.state.vrf) : Leaderless c'.state.vrf := by
  by_cases hvrf : ev.Stands env .vrf
  case neg => rwa [(exec_steps h).vrf hvrf]
  cases ev with
  | tx msg =>
    cases h
    cases hr : deliver env c.block c.state msg with
    | error => exact hc
    | ok s' =>
      obtain ⟨_, -, hr⟩ := bind_eq_ok.mp hr
      cases msg with
      | submitVRFProof =>
        obtain ⟨v, hv, hr⟩ := bind_eq_ok.mp hr
        obtain ⟨_, -, hv⟩ := bind_eq_ok.mp (mapError_eq_ok.mp hv)
        obtain ⟨_, -, hv⟩ := bind_eq_ok.mp hv
        cases hr
        cases hv
        exact hc
      | leaderHeartbeat _ m =>
        -- there is no leader whose heartbeat it could be
        obtain ⟨_, -, hr⟩ := bind_eq_ok.mp hr
        obtain ⟨v, hv, -⟩ := bind_eq_ok.mp hr
        obtain ⟨_, -, hv⟩ := bind_eq_ok.mp (mapError_eq_ok.mp hv)
        rw [Vrf.updateLeaderHeartbeat, hc m] at hv
        contradiction
      | _ => simp [Event.Stands, Msg.Stands] at hvrf
  | call call => cases call <;> simp [Event.Stands, Call.Stands] at hvrf
  | transfer => simp [Event.Stands] at hvrf
  | nextBlock =>
    obtain ⟨s₁, _, _, hend, hbegin, -⟩ := exec_nextBlock h
    exact (beginBlock_leaderless ((endBlock_leaderless hc).get hend)).get hbegin

/-- An active worker that supports the model has its key in the VRF store. -/
def State.served (s : State) (m : ModelId) : Bool :=
  (s.onlineWorkersByModel m).any fun a => (s.vrf.rankedWorker a).isSome

/-- The model has a leader, which is active, supports it and has not timed out. -/
def Chain.Led (c : Chain) (m : ModelId) : Prop :=
  ∃ leader, c.state.vrf.leaders.get m = some leader ∧ c.block.height < leader.endBlock ∧
    c.block.height - leader.lastHeartbeat ≤ c.state.vrf.params.leaderTimeoutBlocks ∧
    leader.address ∈ c.state.onlineWorkersByModel m

/-- **No served model is led**, in any run from an empty VRF state. -/
theorem served_led_iff {c₀ c : Chain} {evs : List Event} {params : Vrf.Params}
    (hempty : c₀.state.vrf = .empty params) (h : Run env c₀ evs c) :
    (∀ m, c.state.served m = true → c.Led m) ↔ ∀ m, c.state.served m = false := by
  have hnone : Leaderless c.state.vrf := Trace.invariant (P := fun c => Leaderless c.state.vrf)
      (fun _ _ _ hc _ hexec => Chain.exec_leaderless hexec hc)
      (fun m => hempty ▸ Table.get_empty m) h
  constructor
  · intro hled m
    by_contra hserved
    obtain ⟨leader, hleader, -⟩ := hled m (eq_true_of_ne_false hserved)
    rw [hnone m] at hleader
    contradiction
  · grind

/-- A worker registers under its key in hexadecimal digits, and two blocks begin. -/
def devServes : List Event :=
  [.tx (.registerWorker ⟨"alice@worker.example", Hex.encode (devKey 1), [[65]], [1]⟩),
    .nextBlock [], .nextBlock []]

/-- The characterisation at the end of these blocks. -/
theorem served_led_iff_devnet : ∃ c, Run devEnv (devChain 1) devServes c ∧
      ((∀ m, c.state.served m = true → c.Led m) ↔ ∀ m, c.state.served m = false) :=
  exists_and_imp (q := fun _ => True) (by decide +kernel) fun _ h _ => served_led_iff rfl h

/-- **A served model without a leader**, two blocks after its worker was registered. -/
theorem served_without_leader :
    ∃ c, Run devEnv (devChain 1) devServes c ∧ c.state.served [65] = true ∧
      c.state.vrf.leaders.get [65] = none := by
  decide +kernel

end FunaiChain.Registry
