import FunaiChain.Registry.ModelIndex

/-!
# FunaiChain.Registry.Statistics

The stored counts of a model against the stores that they summarise.  What counts of a
worker is its operator while it is active (`State.operatorOf`).  A step changes that for
one worker at most, and then the model registry is told, so that the models the worker
declared are counted again; for the others nothing changes (`State.tally_congr`).

Two steps break this.  `ExitWorker` tells nobody, so the counts of the worker's models
go stale (`exit_leaves_counts`); and an address with a zero byte is declared under a key
that a recount does not read back.  Without them, and without governance setting counts
by hand, the counts are right (`counts_fresh`).
-/

namespace FunaiChain.Registry

open Modelreg
open Settlement (devAddr)
open State

variable {env : Env} {block : Vrf.Block}
variable {s s' : State} {lab : Label} {a : Addr} {m : ModelId} {height : Int}
  {msg : Modelreg.MsgModelProposal} {c : Chain} {ev : Event}

/-! ## what is counted -/

namespace State

/-- The active workers that declared a model installed. -/
def installers (s : State) (m : ModelId) : List Addr :=
  (s.world.workers.entries.filter fun e =>
    isActive e.2 && s.modelreg.hasWorkerInstalledModel e.1 m).map Prod.fst

/-- Their operators; an empty id names none. -/
def installerOperators (s : State) (m : ModelId) : Finset String :=
  ((s.installers m).map s.getWorkerOperatorId).toFinset.erase ""

/-- The stored counts of every model are those of its active workers and their
operators. -/
def Fresh (s : State) : Prop :=
  ∀ m model, s.modelreg.getModel m = some model →
    model.workerCount.toNat = (s.installers m).length ∧
      model.operatorCount.toNat = (s.installerOperators m).card

/-- The counts as the fields hold them. -/
def tally (s : State) (m : ModelId) : UInt32 × UInt32 :=
  (UInt32.ofNat (s.installers m).length, UInt32.ofNat (s.installerOperators m).card)

end State

/-- The operator of a record, while the worker is active. -/
def standing (e : Option (Worker × Profile)) : Option String :=
  match e with
  | some (w, p) => if isActive w then some p.operatorId else none
  | none => none

namespace State

/-- The operator of a worker, while it is active. -/
def operatorOf (s : State) (a : Addr) : Option String := standing (s.entry a)

theorem isWorkerActive_eq (s : State) (a : Addr) :
    s.isWorkerActive a = (s.operatorOf a).isSome := by
  unfold isWorkerActive operatorOf standing
  rw [get_eq_entry]
  rcases s.entry a with _ | ⟨w, p⟩
  · rfl
  · cases h : isActive w <;> simp [h]

theorem entry_of_operatorOf {op : String} (h : s.operatorOf a = some op) :
    ∃ w p, s.entry a = some (w, p) ∧ p.operatorId = op := by
  unfold operatorOf standing at h
  grind

theorem isSome_entry_of_operatorOf (h : (s.operatorOf a).isSome = true) :
    (s.entry a).isSome = true := by
  obtain ⟨op, hop⟩ := Option.isSome_iff_exists.mp h
  obtain ⟨w, p, hentry, -⟩ := entry_of_operatorOf hop
  rw [hentry]
  rfl

theorem getWorkerOperatorId_of_operatorOf {op : String} (h : s.operatorOf a = some op) :
    s.getWorkerOperatorId a = op := by
  obtain ⟨w, p, hentry, rfl⟩ := entry_of_operatorOf h
  obtain ⟨hfound, rfl⟩ := entry_eq_some.mp hentry
  rw [getWorkerOperatorId, Table.has, hfound]
  rfl

theorem mem_installers : a ∈ s.installers m ↔
    (s.operatorOf a).isSome = true ∧ s.modelreg.hasWorkerInstalledModel a m = true := by
  rw [← isWorkerActive_eq]
  simp only [installers, List.mem_map, List.mem_filter, Bool.and_eq_true, isWorkerActive]
  constructor
  · rintro ⟨⟨b, w⟩, ⟨hmem, hactive, hhas⟩, rfl⟩
    rw [Table.mem_entries.mp hmem]
    exact ⟨hactive, hhas⟩
  · rintro ⟨hactive, hhas⟩
    cases hfound : s.world.workers.get a with
    | none => simp [hfound] at hactive
    | some w =>
      rw [hfound] at hactive
      exact ⟨(a, w), ⟨Table.mem_entries.mpr hfound, hactive, hhas⟩, rfl⟩

theorem nodup_installers (s : State) (m : ModelId) : (s.installers m).Nodup :=
  (s.world.workers.nodup_keys).sublist (List.filter_sublist.map Prod.fst)

/-- The counts depend on who is counted, and on the operators of those. -/
theorem tally_of_perm {addrs : List Addr} {op : Addr → String} (hnodup : addrs.Nodup)
    (hmem : ∀ a, a ∈ addrs ↔ a ∈ s.installers m)
    (hop : ∀ a ∈ s.installers m, op a = s.getWorkerOperatorId a) :
    (UInt32.ofNat addrs.length, UInt32.ofNat ((addrs.map op).toFinset.erase "").card) =
    s.tally m := by
  have hperm : addrs.Perm (s.installers m) :=
    (List.perm_ext_iff_of_nodup hnodup (s.nodup_installers m)).mpr hmem
  have hmap : addrs.map op = addrs.map s.getWorkerOperatorId :=
    List.map_congr_left fun a ha => hop a ((hmem a).mp ha)
  have hset : (addrs.map op).toFinset = ((s.installers m).map s.getWorkerOperatorId).toFinset := by
    rw [hmap]
    exact List.toFinset_eq_of_perm _ _ (hperm.map _)
  rw [tally, installerOperators, hset, hperm.length_eq]

/-- **Counts that nothing happened to.** -/
theorem tally_congr
    (h : ∀ a op, s'.operatorOf a = some op ∧ s'.modelreg.hasWorkerInstalledModel a m = true ↔
    s.operatorOf a = some op ∧ s.modelreg.hasWorkerInstalledModel a m = true) :
    s'.tally m = s.tally m := by
  have hmem : ∀ a, a ∈ s'.installers m ↔ a ∈ s.installers m := by
    intro a
    simp only [mem_installers, Option.isSome_iff_exists, ← exists_and_right]
    exact exists_congr fun op => h a op
  refine tally_of_perm (s'.nodup_installers m) hmem fun a ha => ?_
  obtain ⟨hsome, hhas⟩ := mem_installers.mp ha
  obtain ⟨op, hop⟩ := Option.isSome_iff_exists.mp hsome
  rw [getWorkerOperatorId_of_operatorOf hop,
    getWorkerOperatorId_of_operatorOf ((h a op).mpr ⟨hop, hhas⟩).1]

/-- **A recount is right**, unless a declared address has a zero byte. -/
theorem recount_eq_tally {s₀ : State} {r : Modelreg.State}
    (hindex : r.installed = s.modelreg.installed)
    (hop : ∀ a, s.modelreg.hasWorkerInstalledModel a m = true → s₀.operatorOf a = s.operatorOf a)
    (hzero : ∀ a ∈ s.installers m, 0 ∉ a) : recount s₀.workerKeeper r m = s.tally m := by
  refine tally_of_perm ((nodup_getInstalledWorkersByModel m).filter _)
    (fun a => ?_) fun a ha => ?_
  · rw [active, List.mem_filter, mem_getInstalledWorkersByModel, has_congr hindex]
    change _ ∧ s₀.isWorkerActive a = true ↔ _
    rw [isWorkerActive_eq, mem_installers]
    constructor
    · grind
    · rintro ⟨hactive, hdeclared⟩
      exact ⟨⟨hzero a (mem_installers.mpr ⟨hactive, hdeclared⟩), hdeclared⟩,
        (hop a hdeclared).symm ▸ hactive⟩
  · obtain ⟨hsome, hdeclared⟩ := mem_installers.mp ha
    obtain ⟨op, hstands⟩ := Option.isSome_iff_exists.mp hsome
    change s₀.getWorkerOperatorId a = _
    rw [getWorkerOperatorId_of_operatorOf hstands,
      getWorkerOperatorId_of_operatorOf ((hop a hdeclared).trans hstands)]

end State

/-! ## what a step does to them -/

/-- The labels that start or end the activity of a worker. -/
def Label.moves : Label → Prop
  | .register _ _ _ | .exit _ | .unjail _ | .jail _ | .tombstone _ => True
  | _ => False

/-- A removal takes a worker that was not active any more. -/
theorem Change.standing {wp : WorkerParams} {ep : EntryParams} {e e' : Option (Worker × Profile)}
    (h : Change height wp ep lab e e') (hlab : ¬ lab.moves) : standing e' = standing e := by
  cases h with
  | register | exit | unjail | jail | tombstone => exact absurd trivial hlab
  | remove _ exiting => simp [Registry.standing, isActive, exiting]
  | _ => rfl

theorem Step.operatorOf (h : Step env block s lab s') {b : Addr}
    (hlab : lab.addr = some b → ¬ lab.moves) : s'.operatorOf b = s.operatorOf b := by
  unfold State.operatorOf
  by_cases haddr : lab.addr = some b
  · exact (h.change b haddr).standing (hlab haddr)
  · rw [h.others b haddr]

/-- Records belong to accounts, and declarations to records and models; no declared
address has a zero byte. -/
structure State.Indexed (s : State) : Prop where
  accounts : ∀ a, (s.entry a).isSome = true → a.length = 20
  declared : ∀ a m, a.length = 20 → s.modelreg.hasWorkerInstalledModel a m = true →
    (s.entry a).isSome = true ∧ 0 ∉ a ∧ (s.modelreg.counts m).isSome = true

/-- The stored counts are right. -/
def State.Counted (s : State) : Prop := ∀ m xy, s.modelreg.counts m = some xy → xy = s.tally m

theorem State.Indexed.length_of_mem (hs : s.Indexed) (h : a ∈ s.installers m) : a.length = 20 :=
  hs.accounts a (isSome_entry_of_operatorOf (mem_installers.mp h).1)

theorem State.Indexed.zero_of_mem (hs : s.Indexed) (h : a ∈ s.installers m) : 0 ∉ a :=
  (hs.declared a m (hs.length_of_mem h) (mem_installers.mp h).2).2.1

/-- The steps that keep the counts right: an exit without declarations, a declaration
from an address without a zero byte, and no count set by governance. -/
def Label.allowed (s : State) : Label → Prop
  | .exit a => ∀ m, s.modelreg.hasWorkerInstalledModel a m = false
  | .declare a _ => 0 ∉ a
  | .govern _ => False
  | _ => True

/-! ### the models stay -/

theorem counts_proposeModel {s s' : Modelreg.State}
    (h : proposeModel env.toModelreg height s msg = .ok s') :
    ∃ m₀, s.counts m₀ = none ∧ ∀ m, s'.counts m = if m₀ = m then some (0, 0) else s.counts m := by
  obtain ⟨_, -, h⟩ := bind_eq_ok.mp h
  obtain ⟨_, hnew, h⟩ := bind_eq_ok.mp h
  obtain ⟨_, -, h⟩ := bind_eq_ok.mp h
  cases h
  have hnone := Option.isNone_iff_eq_none.mp (ensure_eq_ok.mp hnew)
  refine ⟨_, by rw [counts, hnone]; rfl, fun m => ?_⟩
  exact counts_setModel s _ m

theorem counts_recordModelTask (s : Modelreg.State) (m₀ : ModelId) (fee latencyMs : UInt64)
    (m : ModelId) : (recordModelTask s m₀ fee latencyMs).counts m = s.counts m := by
  unfold recordModelTask
  split
  · rfl
  · next model hmodel =>
    dsimp only
    split <;> refine counts_setModel_of_get _ hmodel ?_ ?_ ?_ m <;> rfl

section
variable (h : Step env block s lab s')
include h

/-- Models are never deleted. -/
theorem Step.isSome_counts (hgovern : ∀ msg, lab ≠ .govern msg)
    (hm : (s.modelreg.counts m).isSome = true) : (s'.modelreg.counts m).isSome = true := by
  have hnotified : ∀ a, Modelreg.onWorkerStateChange env.toModelreg s'.workerKeeper block.height
      s.modelreg a = .ok s'.modelreg → (s'.modelreg.counts m).isSome = true := by
    intro a htold
    rw [(Modelreg.onWorkerStateChange_eq_ok htold).2]
    split <;> simpa using hm
  have htold := h.told
  cases lab with
  | govern msg => exact absurd rfl (hgovern msg)
  | stake | unjail | jail | tombstone | slash => exact hnotified _ htold
  | remove =>
    obtain ⟨-, s₁, -, hcounts⟩ := Modelreg.onWorkerRemoved_eq_ok htold
    rw [hcounts]
    split <;> simpa using hm
  | declare =>
    rw [(refreshModelStats_eq_ok htold.2.2.2).2]
    split
    · next hmm => subst hmm; simpa [counts, getModel, setWorkerInstalledModel] using hm
    · exact hm
  | propose =>
    obtain ⟨m₀, -, hcounts⟩ := counts_proposeModel htold
    rw [hcounts]
    split
    · rfl
    · exact hm
  | task =>
    rw [show s'.modelreg = _ from htold, counts_recordModelTask]
    exact hm
  | _ =>
    rw [show s'.modelreg = s.modelreg from htold]
    exact hm

/-- A record stays, unless it is removed, and new ones come by registration. -/
theorem Step.isSome_entry (hsome : (s.entry a).isSome = true) (hremove : ∀ c, lab ≠ .remove a c) :
    (s'.entry a).isSome = true := by
  by_cases haddr : lab.addr = some a
  · obtain ⟨⟨w, p⟩, hentry⟩ := Option.isSome_iff_exists.mp hsome
    have hchange := h.change a haddr
    rw [hentry] at hchange
    obtain ⟨b, models, rfl, w', p', hentry', -⟩ | ⟨b, c, rfl⟩ | ⟨w', p', hentry', -⟩ :=
      hchange.supportedModels
    · rw [hentry']
      rfl
    · cases haddr
      exact absurd rfl (hremove c)
    · rw [hentry']
      rfl
  · rwa [h.others a haddr]

theorem Step.entry_of_isSome (hsome : (s'.entry a).isSome = true) :
    (s.entry a).isSome = true ∨ ∃ msg c, lab = .register a msg c := by
  by_cases haddr : lab.addr = some a
  · have hchange := h.change a haddr
    generalize s.entry a = e, s'.entry a = e' at hchange hsome
    cases hchange with
    | register _ msg stake =>
      cases haddr
      exact .inr ⟨msg, stake, rfl⟩
    | _ => exact .inl rfl
  · rw [h.others a haddr] at hsome
    exact .inl hsome

theorem Step.indexed (hallowed : lab.allowed s) (hs : s.Indexed) : s'.Indexed where
  accounts := fun a hsome => by
    obtain hbefore | ⟨msg, c, rfl⟩ := h.entry_of_isSome hsome
    · exact hs.accounts a hbefore
    · exact env.signer_length a (h.signed a rfl)
  declared := fun a m hlen hhas => by
    have hgovern : ∀ msg, lab ≠ .govern msg := by
      rintro msg rfl
      exact hallowed
    obtain rfl | ⟨hbefore, hstays⟩ := h.has_installed hlen hhas
    · obtain ⟨hmodel, hactive, -, -⟩ := h.told
      refine ⟨?_, hallowed, h.isSome_counts hgovern (Modelreg.State.isSome_counts.trans hmodel)⟩
      rw [h.others a (by simp [Label.addr])]
      rw [isWorkerActive_eq] at hactive
      exact isSome_entry_of_operatorOf hactive
    · obtain ⟨hentry, hzero, hmodel⟩ := hs.declared a m hlen hbefore
      exact ⟨h.isSome_entry hentry hstays, hzero, h.isSome_counts hgovern hmodel⟩

/-! ### the counts -/

/-- A step that the model registry is told of: the models of the worker are counted
again, and nothing changes for the others. -/
theorem Step.counted_notified (haddr : lab.addr = some a)
    (htold : Modelreg.onWorkerStateChange env.toModelreg s'.workerKeeper block.height s.modelreg a =
    .ok s'.modelreg) (hs' : s'.Indexed) (hc : s.Counted) : s'.Counted := by
  intro m xy hxy
  obtain ⟨hindex, hcounts⟩ := Modelreg.onWorkerStateChange_eq_ok htold
  rw [hcounts] at hxy
  split at hxy
  · obtain ⟨_, -, rfl⟩ := Option.map_eq_some_iff.mp hxy
    exact recount_eq_tally hindex.symm (fun _ _ => rfl) fun b hb => hs'.zero_of_mem hb
  · next hnot =>
    rw [hc m xy hxy]
    refine (tally_congr fun b op => ?_).symm
    rw [has_congr hindex]
    by_cases hb : b = a
    · subst hb
      simp [hnot]
    · rw [h.operatorOf fun hb' => absurd (Option.some.inj (haddr.symm.trans hb')).symm hb]

/-- A step that the model registry is not told of leaves the counts of a model alone that
the worker has not declared, or if the worker stays as active as it was. -/
theorem Step.tally_eq (hindex : s'.modelreg.installed = s.modelreg.installed)
    (hlab : ∀ a, lab.addr = some a → lab.moves → s.modelreg.hasWorkerInstalledModel a m = false) :
    s'.tally m = s.tally m := by
  refine tally_congr fun b op => ?_
  rw [has_congr hindex]
  by_cases hmoved : lab.addr = some b ∧ lab.moves
  · simp [hlab b hmoved.1 hmoved.2]
  · rw [h.operatorOf fun hb hm => hmoved ⟨hb, hm⟩]

end

/-- Where no operator changes, the accounts that have declared a model give its tally. -/
theorem State.Indexed.tally_eq (hs' : s'.Indexed) (hop : ∀ b, s'.operatorOf b = s.operatorOf b)
    (hhas : ∀ b, b.length = 20 → (s'.modelreg.hasWorkerInstalledModel b m = true ↔
    s.modelreg.hasWorkerInstalledModel b m = true)) : s'.tally m = s.tally m := by
  refine tally_congr fun b op => ?_
  rw [hop]
  refine and_congr_right fun hstands => hhas b ?_
  refine hs'.accounts b (isSome_entry_of_operatorOf ?_)
  rw [hop, hstands]
  rfl

theorem Step.counted_remove {c : Coin} (h : Step env block s (.remove a c) s') (hs' : s'.Indexed)
    (hc : s.Counted) (hlen : a.length = 20) : s'.Counted := by
  intro m xy hxy
  have hop : ∀ b, s'.operatorOf b = s.operatorOf b := fun b => h.operatorOf fun _ => id
  obtain ⟨hindex, s₁, hindex₁, hcounts⟩ := Modelreg.onWorkerRemoved_eq_ok h.told
  rw [hcounts] at hxy
  split at hxy
  · obtain ⟨_, -, rfl⟩ := Option.map_eq_some_iff.mp hxy
    exact recount_eq_tally hindex₁ (fun b _ => (hop b).symm) fun b hb => hs'.zero_of_mem hb
  · next hnot =>
    rw [hc m xy hxy]
    refine (hs'.tally_eq hop fun b hlenb => ⟨?_, ?_⟩).symm
    · exact fun hhas => ((hindex _).mp hhas).1
    · intro hhas
      refine (hindex _).mpr ⟨hhas, fun m' hkey => hnot ?_⟩
      obtain ⟨rfl, rfl⟩ := workerInstalledModelKey_inj (hlen.trans hlenb.symm) hkey
      exact hhas

theorem Step.counted_declare {m₀ : ModelId} (h : Step env block s (.declare a m₀) s')
    (hs' : s'.Indexed) (hc : s.Counted) : s'.Counted := by
  intro m xy hxy
  have hop : ∀ b, s'.operatorOf b = s.operatorOf b := fun b => h.operatorOf fun _ => id
  obtain ⟨-, -, -, hrefresh⟩ := h.told
  obtain ⟨hindex, hcounts⟩ := refreshModelStats_eq_ok hrefresh
  rw [hcounts] at hxy
  split at hxy
  · next hm =>
    subst hm
    obtain ⟨_, -, rfl⟩ := Option.map_eq_some_iff.mp hxy
    exact recount_eq_tally hindex.symm (fun b _ => (hop b).symm)
      fun b hb => hs'.zero_of_mem hb
  · next hm =>
    rw [hc m xy hxy]
    refine (hs'.tally_eq hop fun b hlenb => ⟨?_, ?_⟩).symm
    · intro hhas
      obtain heq | ⟨hbefore, -⟩ := h.has_installed hlenb hhas
      · exact absurd (Label.declare.inj heq).2.symm hm
      · exact hbefore
    · intro hhas
      unfold hasWorkerInstalledModel
      rw [hindex]
      exact has_setWorkerInstalledModel.mpr (.inr hhas)

theorem Step.counted_propose (h : Step env block s (.propose msg) s') (hs : s.Indexed)
    (hc : s.Counted) : s'.Counted := by
  intro m xy hxy
  obtain ⟨m₀, hnew, hcounts⟩ := counts_proposeModel h.told
  have htally : s'.tally m = s.tally m :=
    h.tally_eq (proposeModel_installed h.told) fun a ha => by contradiction
  rw [hcounts] at hxy
  split at hxy
  · next hm =>
    -- a model that is not there has not been declared
    subst hm
    have hnobody : s.installers m₀ = [] := by
      refine List.eq_nil_iff_forall_not_mem.mpr fun a ha => ?_
      have hmodel := (hs.declared a m₀ (hs.length_of_mem ha) (mem_installers.mp ha).2).2.2
      rw [hnew] at hmodel
      contradiction
    rw [htally, tally, installerOperators, hnobody]
    exact (Option.some.inj hxy).symm
  · rw [htally]
    exact hc m xy hxy

/-- A step that leaves the model registry as it is. -/
theorem Step.counted_quiet (h : Step env block s lab s') (hsame : s'.modelreg = s.modelreg)
    (hlab : ∀ a m, lab.addr = some a → lab.moves → s.modelreg.hasWorkerInstalledModel a m = false)
    (hc : s.Counted) : s'.Counted := by
  intro m xy hxy
  rw [h.tally_eq (by rw [hsame]) fun a => hlab a m]
  exact hc m xy (hsame ▸ hxy)

/-- **The counts stay right**, step by step. -/
theorem Step.counted (h : Step env block s lab s') (hallowed : lab.allowed s) (hs : s.Indexed)
    (hc : s.Counted) : s'.Counted := by
  have hs' := h.indexed hallowed hs
  have htold := h.told
  cases lab with
  | stake | unjail | jail | tombstone | slash => exact h.counted_notified rfl htold hs' hc
  | remove a =>
    have hchange := h.change a rfl
    refine h.counted_remove hs' hc (hs.accounts a ?_)
    generalize s.entry a = e, s'.entry a = e' at hchange
    cases hchange with
    | remove => rfl
  | declare => exact h.counted_declare hs' hc
  | propose => exact h.counted_propose hs hc
  | govern => exact hallowed.elim
  | task =>
    intro m xy hxy
    have htold : s'.modelreg = _ := htold
    rw [htold, counts_recordModelTask] at hxy
    rw [h.tally_eq (by rw [htold, recordModelTask_installed]) fun a ha => by contradiction]
    exact hc m xy hxy
  | register a =>
    refine h.counted_quiet htold (fun b m hb _ => ?_) hc
    cases hb
    -- what is declared is registered, and this account is not yet
    by_contra hhas
    have hlen := env.signer_length a (h.signed a rfl)
    have hsome := (hs.declared a m hlen (by simpa using hhas)).1
    have hchange := h.change a rfl
    generalize s.entry a = e, s'.entry a = e' at hchange hsome
    cases hchange with
    | register => contradiction
  | exit =>
    refine h.counted_quiet htold (fun b m hb _ => ?_) hc
    cases hb
    exact hallowed m
  | _ => exact h.counted_quiet htold (fun _ _ _ hm => hm.elim) hc

/-! ## runs -/

/-- The events that keep the counts right: whoever exits has no model installed, whoever
declares one has an address without a zero byte, and governance sets no counts. -/
def refreshes (env : Env) (c : Chain) : Event → Bool
  | .tx (.exitWorker msg) => (env.accAddressFromBech32 msg.creator).all fun a =>
      (c.state.modelreg.getWorkerInstalledModels a).isEmpty
  | .tx (.declareInstalled msg) => (env.accAddressFromBech32 msg.creator).all fun a =>
      !a.contains 0
  | .tx (.updateModelStats _) => false
  | _ => true

theorem allowed_of_refreshes {msg : Msg} (h : refreshes env c (.tx msg) = true)
    (hstands : msg.Stands env lab) : lab.allowed c.state := by
  cases msg with
  | exitWorker =>
    obtain ⟨a, hcreator, rfl⟩ := hstands
    simp only [refreshes, hcreator, Option.all_some, List.isEmpty_iff] at h
    intro m
    by_contra hhas
    have hmem : m ∈ c.state.modelreg.getWorkerInstalledModels a :=
      mem_getWorkerInstalledModels.mpr (by simpa using hhas)
    rw [h] at hmem
    contradiction
  | declareInstalled =>
    obtain ⟨a, hcreator, rfl⟩ := hstands
    simp only [refreshes, hcreator, Option.all_some] at h
    simpa [Label.allowed] using h
  | updateModelStats => contradiction
  | registerWorker =>
    obtain ⟨a, stake, -, -, rfl⟩ := hstands
    trivial
  | updateModels | addStake | unjail =>
    obtain ⟨a, -, rfl⟩ := hstands
    trivial
  | _ =>
    obtain rfl := hstands
    trivial

/-- Events that are not messages do none of the excepted steps. -/
theorem Event.allowed (htx : ∀ msg, ev ≠ .tx msg) (h : ev.Stands env lab) (s : State) :
    lab.allowed s := by
  cases ev with
  | tx msg => exact absurd rfl (htx msg)
  | transfer =>
    obtain ⟨-, -, rfl⟩ := h
    trivial
  | call k =>
    cases lab with
    | exit | declare | govern => cases k <;> simp [Event.Stands, Call.Stands] at h
    | _ => trivial
  | nextBlock =>
    cases lab with
    | remove | vrf | note => trivial
    | _ => exact h.elim

theorem Chain.exec_counted {c' : Chain} (h : c.exec env ev = .ok c')
    (hok : refreshes env c ev = true) (hs : c.state.Indexed) (hc : c.state.Counted) :
    c'.state.Indexed ∧ c'.state.Counted := by
  by_cases htx : ∃ msg, ev = .tx msg
  · obtain ⟨msg, rfl⟩ := htx
    obtain hsame | ⟨lab, hstands, hstep⟩ := exec_tx h
    · grind
    · have hallowed := allowed_of_refreshes hok hstands
      exact ⟨hstep.indexed hallowed hs, hstep.counted hallowed hs hc⟩
  · obtain ⟨labs, hsteps, hlabs⟩ := exec_steps h
    refine hsteps.invariant (P := fun s => s.Indexed ∧ s.Counted) ?_ ⟨hs, hc⟩
    intro s s' lab hlab hP hstep
    have hallowed : lab.allowed s := Event.allowed (fun msg e => htx ⟨msg, e⟩) (hlabs lab hlab) s
    exact ⟨hstep.indexed hallowed hP.1, hstep.counted hallowed hP.1 hP.2⟩

/-- There are no more installers than workers, and no more operators than installers. -/
theorem State.installers_le (s : State) (m : ModelId) :
    (s.installers m).length ≤ s.world.workers.entries.length ∧
    (s.installerOperators m).card ≤ (s.installers m).length := by
  constructor
  · rw [installers, List.length_map]
    exact List.length_filter_le _ _
  · calc (s.installerOperators m).card
        ≤ ((s.installers m).map s.getWorkerOperatorId).toFinset.card := Finset.card_erase_le
      _ ≤ ((s.installers m).map s.getWorkerOperatorId).length := List.toFinset_card_le _
      _ = (s.installers m).length := List.length_map _

theorem State.Counted.fresh (hc : s.Counted) (hfew : s.world.workers.entries.length < 2 ^ 32) :
    s.Fresh := by
  intro m model hmodel
  obtain ⟨hworkers, hoperators⟩ := s.installers_le m
  have hcounts : s.modelreg.counts m = some (model.workerCount, model.operatorCount) := by
    rw [counts, hmodel]
    rfl
  obtain ⟨hcount, hops⟩ := Prod.mk.inj (hc m _ hcounts)
  rw [hcount, hops]
  exact ⟨Nat.mod_eq_of_lt (by omega), Nat.mod_eq_of_lt (by omega)⟩

/-- **The statistics of the models are never stale**, in every run from empty stores in
which nobody exits with a model installed, no address with a zero byte declares one and
governance sets no counts; the counts hold fewer than `2 ^ 32` workers. -/
theorem counts_fresh {c₀ c : Chain} {evs : List Event}
    (hworkers : ∀ a, c₀.state.world.workers.get a = none)
    (hindex : ∀ key, c₀.state.modelreg.installed.has key = false)
    (hmodels : ∀ m, c₀.state.modelreg.getModel m = none)
    (h : RunWith env (fun c ev => refreshes env c ev = true) c₀ evs c)
    (hfew : c.state.world.workers.entries.length < 2 ^ 32) : c.state.Fresh := by
  have hs₀ : c₀.state.Indexed ∧ c₀.state.Counted := by
    refine ⟨⟨fun a hsome => ?_, fun a m _ hhas => ?_⟩, fun m xy hxy => ?_⟩
    · rw [entry_eq_none.mpr (hworkers a)] at hsome
      contradiction
    · rw [hasWorkerInstalledModel, hindex] at hhas
      contradiction
    · rw [counts, hmodels] at hxy
      contradiction
  have hs : c.state.Indexed ∧ c.state.Counted :=
    Trace.invariant (P := fun c => c.state.Indexed ∧ c.state.Counted)
      (fun _ _ _ hs hok hexec => Chain.exec_counted hexec hok hs.1 hs.2) hs₀ h
  exact hs.2.fresh hfew

/-- A declaration by a worker that is then jailed. -/
theorem devDeclared_fresh :
    ∃ c, RunWith devEnv (fun c ev => refreshes devEnv c ev = true) (devChain 1)
        (devDeclared "alice@worker.example" 1 ++
          [.call (.jailWorker (devAddr "alice@worker.example"))]) c ∧
      c.state.world.workers.entries.length < 2 ^ 32 ∧ c.state.Fresh := by
  refine exists_and_of (by decide +kernel) fun c hrun hfew => ?_
  have hmodels : ∀ m, (devChain 1).state.modelreg.getModel m = none := fun m => Table.get_empty m
  exact counts_fresh (devChain_workers 1) (devChain_installed 1) hmodels hrun hfew

/-- **An exit tells nobody**: the worker is not active any more and still counted. -/
theorem exit_leaves_counts : ∃ c, Run devEnv (devChain 1) (devDeclared "alice@worker.example" 1 ++
        [.tx (.exitWorker ⟨"alice@worker.example"⟩)]) c ∧
      ((c.state.modelreg.getModel devModel).any (fun model => model.workerCount == 1) &&
        (c.state.installers devModel).isEmpty) = true := by
  decide +kernel

end FunaiChain.Registry
